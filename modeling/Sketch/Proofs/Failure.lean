import Mathlib.Data.List.Forall2

/-!
Computations that may fail, and what they come to.
-/

namespace Sketch

section Except

variable {ε δ α β : Type} {x : Except ε α} {a : α} {b : β} {f : α → Except ε β}

theorem bind_of_eq_ok (h : x = .ok a) : x >>= f = f a := by
  rw [h]
  rfl

theorem bind_eq_ok_iff : x >>= f = .ok b ↔ ∃ a, x = .ok a ∧ f a = .ok b := by
  constructor
  · intro h
    cases x with
    | error e => contradiction
    | ok a => exact ⟨a, rfl, h⟩
  · rintro ⟨a, hx, h⟩
    rw [bind_of_eq_ok hx, h]

theorem mapError_eq_ok_iff {g : ε → δ} : x.mapError g = .ok a ↔ x = .ok a := by
  cases x with
  | ok => exact ⟨fun h => congrArg _ (Except.ok.inj h), fun h => congrArg _ (Except.ok.inj h)⟩
  | error => exact iff_of_false nofun nofun

end Except

section Option

variable {α β : Type} {g : α → Option β} {xs : List α}

theorem forall₂_of_mapM_eq_some {ys : List β} (h : xs.mapM g = some ys) :
    List.Forall₂ (fun x y => g x = some y) xs ys := by
  induction xs generalizing ys with
  | nil =>
    obtain rfl : [] = ys := Option.some.inj h
    exact .nil
  | cons x xs ih =>
    rw [List.mapM_cons] at h
    obtain ⟨y, hy, h⟩ := Option.bind_eq_some_iff.1 h
    obtain ⟨rest, hrest, h⟩ := Option.bind_eq_some_iff.1 h
    obtain rfl := Option.some.inj h
    exact .cons hy (ih hrest)

theorem mapM_eq_none_iff : xs.mapM g = none ↔ ∃ x ∈ xs, g x = none := by
  induction xs with
  | nil => simp
  | cons x xs ih =>
    rw [List.mapM_cons]
    cases hx : g x with
    | none => exact iff_of_true rfl ⟨x, List.mem_cons_self .., hx⟩
    | some y =>
      have hcons : (∃ z ∈ x :: xs, g z = none) ↔ ∃ z ∈ xs, g z = none := by simp [hx]
      rw [hcons, ← ih]
      cases xs.mapM g with
      | none => exact iff_of_true rfl rfl
      | some ys => exact iff_of_false (Option.some_ne_none _) (Option.some_ne_none _)

end Option

end Sketch
