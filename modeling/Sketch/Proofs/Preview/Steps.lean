import Mathlib.Data.Int.Range
import Sketch.Preview
import Sketch.Proofs.Number.Whole

/-!
Steps of one from a whole number up to a bound. They meet every whole number on the way as long as
the floats hold them all. Beyond that they skip some, or they stay where they are and never end.
-/

namespace Sketch

namespace Number

/-- A finite float that is a whole number. -/
structure Stands (x : Float) (n : ℤ) : Prop where
  finite : x.isFinite = true
  value_eq : value x = n

variable {x y : Float} {n : ℤ}

theorem Stands.add_one (h : Stands x n) : Stands (x + 1) (step n) :=
  have hx := value_add_one h.finite h.value_eq
  ⟨hx.1, hx.2⟩

theorem Stands.le_iff (h : Stands x n) (hy : y.isFinite = true) : x ≤ y ↔ n ≤ ⌊value y⌋ := by
  rw [Number.le_iff h.finite hy, h.value_eq, Int.le_floor]

/-- Whole numbers past `2 ^ 53` are even. -/
theorem Stands.even (h : Stands x n) (hn : ¬(-2 ^ 53 ≤ n ∧ n < 2 ^ 53)) : n % 2 = 0 :=
  even_of_le h.finite h.value_eq (le_abs.2 (by omega))

theorem stands_ceil (hx : x.isFinite = true) : Stands (ceil x) ⌈value x⌉ :=
  have h := value_ceil hx
  ⟨h.1, h.2⟩

theorem length_range (a b : ℤ) : (Int.range a b).length = (b - a).toNat := by
  rw [Int.range, List.length_map, List.length_range]

theorem range_eq_nil {a b : ℤ} (h : b ≤ a) : Int.range a b = [] := by
  rw [← List.length_eq_zero_iff, length_range]
  omega

theorem range_eq_cons {a b : ℤ} (h : a < b) : Int.range a b = a :: Int.range (a + 1) b := by
  have hl : (b - a).toNat = (b - (a + 1)).toNat + 1 := by omega
  rw [Int.range, hl, List.range_succ_eq_map, List.map_cons, List.map_map, Nat.cast_zero, add_zero,
    Int.range]
  congr 1
  apply List.map_congr_left
  intro k _
  simp only [Function.comp_apply]
  push_cast
  ring

end Number

namespace Preview

open Number

/-- Whole numbers that steps of one go through: small ones, or a single one that the next step
leaves. -/
def Walkable (ns : List ℤ) : Prop :=
  (∀ n ∈ ns, -2 ^ 53 ≤ n ∧ n < 2 ^ 53) ∨ ∃ n, ns = [n] ∧ n % 4 = 2

variable {stop x : Float} {limit : ℕ} {n : ℤ} {xs : List Float}

theorem unitSteps?_of_not_le (h : ¬x ≤ stop) : unitSteps? stop limit x = some [] := by
  unfold unitSteps?
  rw [if_neg h]

theorem unitSteps?_zero (h : x ≤ stop) : unitSteps? stop 0 x = none := by
  unfold unitSteps?
  rw [if_pos h]

theorem unitSteps?_succ (h : x ≤ stop) :
    unitSteps? stop (limit + 1) x = (unitSteps? stop limit (x + 1)).map (x :: ·) := by
  conv_lhs => unfold unitSteps?
  rw [if_pos h]

/-- A limit that suffices makes no difference. -/
theorem unitSteps?_of_length_le {limit' : ℕ} (h : unitSteps? stop limit x = some xs)
    (hl : xs.length ≤ limit') : unitSteps? stop limit' x = some xs := by
  induction limit generalizing x xs limit' with
  | zero =>
    by_cases hle : x ≤ stop
    · rw [unitSteps?_zero hle] at h
      contradiction
    · rw [unitSteps?_of_not_le hle] at h ⊢
      exact h
  | succ limit ih =>
    by_cases hle : x ≤ stop
    · rw [unitSteps?_succ hle, Option.map_eq_some_iff] at h
      obtain ⟨ys, hys, rfl⟩ := h
      cases limit' with
      | zero => simp at hl
      | succ limit' =>
        rw [unitSteps?_succ hle, ih hys (Nat.le_of_succ_le_succ hl)]
        rfl
    · rw [unitSteps?_of_not_le hle] at h ⊢
      exact h

/-- Past `2 ^ 53` a multiple of four is never left. -/
theorem unitSteps?_eq_none (hx : Stands x n) (hle : x ≤ stop) (hstop : stop.isFinite = true)
    (hn : ¬(-2 ^ 53 ≤ n ∧ n < 2 ^ 53)) (hmod : n % 4 = 0) (limit : ℕ) :
    unitSteps? stop limit x = none := by
  induction limit generalizing x with
  | zero => exact unitSteps?_zero hle
  | succ limit ih =>
    have hstay : Stands (x + 1) n := by
      have h := hx.add_one
      rwa [step, if_neg hn, hmod, add_zero] at h
    have hle' : x + 1 ≤ stop := (hstay.le_iff hstop).2 ((hx.le_iff hstop).1 hle)
    rw [unitSteps?_succ hle, ih hstay hle']
    rfl

theorem exists_unitSteps?_of_small (hx : Stands x n) (hstop : stop.isFinite = true)
    (hsmall : ∀ m ∈ Int.range n (⌊value stop⌋ + 1), -2 ^ 53 ≤ m ∧ m < 2 ^ 53)
    (hl : (Int.range n (⌊value stop⌋ + 1)).length ≤ limit) :
    ∃ xs, unitSteps? stop limit x = some xs ∧
      List.Forall₂ Stands xs (Int.range n (⌊value stop⌋ + 1)) := by
  induction limit generalizing x n with
  | zero =>
    rw [length_range] at hl
    have hle : ¬x ≤ stop := by
      rw [hx.le_iff hstop]
      omega
    rw [range_eq_nil (by omega), unitSteps?_of_not_le hle]
    exact ⟨[], rfl, .nil⟩
  | succ limit ih =>
    rcases lt_or_ge n (⌊value stop⌋ + 1) with hn | hn
    · have hle : x ≤ stop := (hx.le_iff hstop).2 (by omega)
      rw [range_eq_cons hn] at hsmall hl ⊢
      obtain ⟨hhere, hrest⟩ := List.forall_mem_cons.1 hsmall
      have hnext : Stands (x + 1) (n + 1) := by
        have h := hx.add_one
        rwa [step, if_pos hhere] at h
      obtain ⟨ys, hys, hstands⟩ := ih hnext hrest (Nat.le_of_succ_le_succ hl)
      rw [unitSteps?_succ hle, hys]
      exact ⟨x :: ys, rfl, .cons hx hstands⟩
    · have hle : ¬x ≤ stop := by
        rw [hx.le_iff hstop]
        omega
      rw [range_eq_nil hn, unitSteps?_of_not_le hle]
      exact ⟨[], rfl, .nil⟩

theorem range_singleton (n : ℤ) : Int.range n (n + 1) = [n] := by
  rw [range_eq_cons (lt_add_one n), range_eq_nil le_rfl]

theorem exists_unitSteps?_of_walkable (hx : Stands x n) (hstop : stop.isFinite = true)
    (hwalk : Walkable (Int.range n (⌊value stop⌋ + 1)))
    (hl : (Int.range n (⌊value stop⌋ + 1)).length ≤ limit) :
    ∃ xs, unitSteps? stop limit x = some xs ∧
      List.Forall₂ Stands xs (Int.range n (⌊value stop⌋ + 1)) := by
  by_cases hsmall : ∀ m ∈ Int.range n (⌊value stop⌋ + 1), -2 ^ 53 ≤ m ∧ m < 2 ^ 53
  · exact exists_unitSteps?_of_small hx hstop hsmall hl
  · obtain ⟨m, hm, hmod⟩ := hwalk.resolve_left hsmall
    have hlength : (⌊value stop⌋ + 1 - n).toNat = 1 := by
      rw [← length_range, hm, List.length_singleton]
    have hstop' : ⌊value stop⌋ = n := by omega
    rw [hstop', range_singleton] at hm hsmall hl ⊢
    obtain rfl : n = m := List.singleton_inj.1 hm
    have hnext : Stands (x + 1) (n + 2) := by
      have h := hx.add_one
      rwa [step, if_neg (by simpa using hsmall), hmod] at h
    have hle : x ≤ stop := (hx.le_iff hstop).2 hstop'.ge
    have hleft : ¬x + 1 ≤ stop := by
      rw [hnext.le_iff hstop]
      omega
    obtain ⟨limit, rfl⟩ := Nat.exists_eq_succ_of_ne_zero (Nat.ne_of_gt hl)
    rw [unitSteps?_succ hle, unitSteps?_of_not_le hleft]
    exact ⟨[x], rfl, .cons hx .nil⟩

theorem walkable_cons (hn : -2 ^ 53 ≤ n ∧ n < 2 ^ 53) {b : ℤ}
    (h : Walkable (Int.range (n + 1) b)) : Walkable (n :: Int.range (n + 1) b) := by
  left
  rcases h with hsmall | ⟨m, hm, hmod⟩
  · exact List.forall_mem_cons.2 ⟨hn, hsmall⟩
  · have hmem : m ∈ Int.range (n + 1) b := by simp [hm]
    have hlength : (b - (n + 1)).toNat = 1 := by
      rw [← length_range, hm, List.length_singleton]
    have := Int.mem_range_iff.1 hmem
    rw [hm]
    exact List.forall_mem_cons.2 ⟨hn, List.forall_mem_singleton.2 (by omega)⟩

theorem length_unitSteps?_of_not_le (hx : Stands x n) (hstop : stop.isFinite = true)
    (hle : ¬x ≤ stop) (h : unitSteps? stop limit x = some xs) :
    xs.length ≤ (Int.range n (⌊value stop⌋ + 1)).length ∧
      (xs.length = (Int.range n (⌊value stop⌋ + 1)).length →
        Walkable (Int.range n (⌊value stop⌋ + 1))) := by
  rw [unitSteps?_of_not_le hle, Option.some.injEq] at h
  rw [hx.le_iff hstop] at hle
  rw [← h, range_eq_nil (by omega)]
  exact ⟨le_rfl, fun _ => .inl fun m hm => absurd hm List.not_mem_nil⟩

/-- The steps meet at most the whole numbers on the way, and all of them only if these can be
walked. -/
theorem length_unitSteps? (hx : Stands x n) (hstop : stop.isFinite = true)
    (h : unitSteps? stop limit x = some xs) :
    xs.length ≤ (Int.range n (⌊value stop⌋ + 1)).length ∧
      (xs.length = (Int.range n (⌊value stop⌋ + 1)).length →
        Walkable (Int.range n (⌊value stop⌋ + 1))) := by
  induction limit generalizing x n xs with
  | zero =>
    by_cases hle : x ≤ stop
    · rw [unitSteps?_zero hle] at h
      contradiction
    · exact length_unitSteps?_of_not_le hx hstop hle h
  | succ limit ih =>
    by_cases hle : x ≤ stop
    · rw [unitSteps?_succ hle, Option.map_eq_some_iff] at h
      obtain ⟨ys, hys, rfl⟩ := h
      have hn := (hx.le_iff hstop).1 hle
      by_cases hsmall : -2 ^ 53 ≤ n ∧ n < 2 ^ 53
      · have hnext : Stands (x + 1) (n + 1) := by
          have h := hx.add_one
          rwa [step, if_pos hsmall] at h
        obtain ⟨hlength, hwalk⟩ := ih hnext hys
        rw [range_eq_cons (by omega), List.length_cons, List.length_cons]
        exact ⟨Nat.succ_le_succ hlength, fun h => walkable_cons hsmall (hwalk (Nat.succ.inj h))⟩
      · have heven := hx.even hsmall
        have hmod : n % 4 = 2 := by
          by_contra hmod
          have hnone : unitSteps? stop (limit + 1) x = none :=
            unitSteps?_eq_none hx hle hstop hsmall (by omega) _
          rw [unitSteps?_succ hle, hys] at hnone
          contradiction
        have hnext : Stands (x + 1) (n + 2) := by
          have h := hx.add_one
          rwa [step, if_neg hsmall, hmod] at h
        have hlength := (ih hnext hys).1
        rw [length_range] at hlength ⊢
        rw [List.length_cons]
        refine ⟨by omega, fun h => ?_⟩
        have hstop' : ⌊value stop⌋ = n := by omega
        rw [hstop', range_singleton]
        exact .inr ⟨n, rfl, hmod⟩
    · exact length_unitSteps?_of_not_le hx hstop hle h

/-- A limit of the whole numbers on the way loses nothing. -/
theorem unitSteps?_eq_none_of_length_le (hx : Stands x n) (hstop : stop.isFinite = true)
    (hl : (Int.range n (⌊value stop⌋ + 1)).length ≤ limit) (h : unitSteps? stop limit x = none)
    (limit' : ℕ) : unitSteps? stop limit' x = none := by
  cases hxs : unitSteps? stop limit' x with
  | none => rfl
  | some xs =>
    have hlength := (length_unitSteps? hx hstop hxs).1.trans hl
    rw [unitSteps?_of_length_le hxs hlength] at h
    contradiction

end Preview

end Sketch
