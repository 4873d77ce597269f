import Sketch.Proofs.Text.Braces

/-!
Texts between brackets, told by where they end: at the first closing bracket that no brace of the text
holds and no backslash escapes.
-/

namespace Sketch.Braces

variable {depth : Nat} {close c : Char} {cs inner rest : List Char}

/-- From within `depth` braces, what follows the text is outside of all, and not escaped. -/
structure IsOutside (depth : Nat) (cs : List Char) : Prop where
  level_eq : (unescaped cs).foldl deepen depth = 0
  endsEscaped_eq : endsEscaped cs = false

theorem isOutside_iff : IsOutside depth cs ↔
    (unescaped cs).foldl deepen depth = 0 ∧ endsEscaped cs = false :=
  ⟨fun h => ⟨h.level_eq, h.endsEscaped_eq⟩, fun h => ⟨h.1, h.2⟩⟩

instance (depth : Nat) (cs : List Char) : Decidable (IsOutside depth cs) :=
  decidable_of_iff _ isOutside_iff.symm

theorem isOutside_nil : IsOutside depth [] ↔ depth = 0 := by simp [isOutside_iff, unescaped, endsEscaped]

theorem isOutside_escape (c : Char) : IsOutside depth ('\\' :: c :: cs) ↔ IsOutside depth cs := by
  rw [isOutside_iff, isOutside_iff, unescaped_escape, endsEscaped_escape]

theorem isOutside_cons (hb : c ≠ '\\') : IsOutside depth (c :: cs) ↔ IsOutside (deepen depth c) cs := by
  rw [isOutside_iff, isOutside_iff, unescaped_cons hb, endsEscaped_cons hb, List.foldl_cons]

/-- The text leads outside, and nowhere before that a `close` stands outside. -/
structure Reaches (close : Char) (depth : Nat) (cs : List Char) : Prop where
  isOutside : IsOutside depth cs
  isFirst : ∀ before after, cs = before ++ close :: after → ¬IsOutside depth before

theorem reaches_iff : Reaches close depth cs ↔
    IsOutside depth cs ∧ ∀ before after, cs = before ++ close :: after → ¬IsOutside depth before :=
  ⟨fun h => ⟨h.isOutside, h.isFirst⟩, fun h => ⟨h.1, h.2⟩⟩

theorem reaches_nil : Reaches close depth [] ↔ depth = 0 := by
  rw [reaches_iff, isOutside_nil]
  simp

theorem reaches_cons (hb : c ≠ '\\') : Reaches close depth (c :: cs) ↔
    ¬(c = close ∧ depth = 0) ∧ Reaches close (deepen depth c) cs := by
  rw [reaches_iff, reaches_iff, isOutside_cons hb,
    Text.forall_mark_cons (P := fun before => ¬IsOutside depth before), isOutside_nil]
  simp only [isOutside_cons hb, not_and]
  tauto

/-- What a backslash escapes does not close anything. -/
theorem reaches_escape (hc : close ≠ '\\') (c : Char) :
    Reaches close depth ('\\' :: c :: cs) ↔ Reaches close depth cs := by
  have hlone : ¬IsOutside depth ['\\'] := fun h => Bool.noConfusion h.endsEscaped_eq
  rw [reaches_iff, reaches_iff, isOutside_escape,
    Text.forall_mark_cons (P := fun before => ¬IsOutside depth before),
    Text.forall_mark_cons (P := fun before => ¬IsOutside depth ('\\' :: before))]
  simp only [isOutside_escape, hlone, hc.symm, not_false_eq_true, implies_true, false_implies, true_and]

theorem Reaches.splitBefore?_append (h : Reaches close depth cs) (hc : close ≠ '\\') (rest : List Char) :
    splitBefore? close depth (cs ++ close :: rest) = some (cs, close :: rest) := by
  induction cs using escapeInduction generalizing depth with
  | nil =>
    rw [List.nil_append, splitBefore?, if_pos ⟨rfl, reaches_nil.1 h⟩]
    exact hc
  | lone => exact Bool.noConfusion h.isOutside.endsEscaped_eq
  | escape c cs ih =>
    rw [List.cons_append, List.cons_append, splitBefore?, ih ((reaches_escape hc c).1 h)]
    rfl
  | cons c cs hb ih =>
    obtain ⟨hn, h⟩ := (reaches_cons hb).1 h
    rw [List.cons_append, splitBefore?, if_neg hn, ih h]
    · rfl
    · exact hb

theorem reaches_of_splitBefore? (hc : close ≠ '\\')
    (h : splitBefore? close depth cs = some (inner, rest)) : Reaches close depth inner := by
  fun_induction splitBefore? close depth cs generalizing inner with
  | case1 => contradiction
  | case2 => contradiction
  | case3 depth c cs ih =>
    obtain ⟨⟨i, r⟩, hi, he⟩ := Option.map_eq_some_iff.1 h
    cases he
    exact (reaches_escape hc c).2 (ih hi)
  | case4 depth c cs _ hd =>
    cases h
    exact reaches_nil.2 hd.2
  | case5 depth c cs hb hn ih =>
    obtain ⟨⟨i, r⟩, hi, he⟩ := Option.map_eq_some_iff.1 h
    cases he
    exact (reaches_cons hb).2 ⟨hn, ih hi⟩

/-- A text that leads to a closing brace is balanced. -/
theorem Reaches.balanced (h : Reaches '}' depth cs) : Balanced depth cs :=
  (balanced_of_splitBefore? (h.splitBefore?_append (by decide) [])).1

end Sketch.Braces
