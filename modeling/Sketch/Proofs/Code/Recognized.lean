import Sketch.Proofs.Code.Document

/-!
The plots that are found in a text. Their expressions are the trimmed contents of a pair of braces
on one line and outside of comments, so that they are as code keeps them in all ways but one: a
blank that a backslash escapes is trimmed like any other, and then the backslash escapes nothing.
-/

namespace Sketch

namespace Command

section Steps

variable {α β : Type} {r : Reader α} {f : α → Reader β} {c c' : Cursor} {a : α} {b : β}

/-- All that a reader gives has the property. -/
def Gives (r : Reader α) (P : α → Prop) : Prop := ∀ c a c', r c = .ok (a, c') → P a

variable {P : β → Prop}

theorem Gives.pure (h : P b) : Gives (pure b) P := by
  intro c b' c' hb
  rw [(eq_of_pure_eq hb).1]
  exact h

theorem Gives.bind (h : ∀ a, Gives (f a) P) : Gives (r >>= f) P := by
  intro c b c' hb
  obtain ⟨a, d, -, hf⟩ := exists_of_bind_eq hb
  exact h a d b c' hf

theorem Gives.bind_of {Q : α → Prop} (h : Gives r Q) (hf : ∀ a, Q a → Gives (f a) P) :
    Gives (r >>= f) P := by
  intro c b c' hb
  obtain ⟨a, d, hr, hfa⟩ := exists_of_bind_eq hb
  exact hf a (h c a d hr) d b c' hfa

/-- A reader that leaves no backslash without the character that it escapes. -/
def Passes (r : Reader α) : Prop := ∀ c a c', r c = .ok (a, c') →
  ∃ taken, Braces.endsEscaped taken = false ∧ c.rest = taken ++ c'.rest

theorem Passes.pure (a : α) : Passes (pure a) := by
  intro c b c' h
  rw [(eq_of_pure_eq h).2]
  exact ⟨[], rfl, rfl⟩

theorem Passes.bind (h : Passes r) (hf : ∀ a, Passes (f a)) : Passes (r >>= f) := by
  intro c b c' hb
  obtain ⟨a, d, hr, hfa⟩ := exists_of_bind_eq hb
  obtain ⟨cs, hc, he⟩ := h c a d hr
  obtain ⟨ds, hd, hde⟩ := hf a d b c' hfa
  refine ⟨cs ++ ds, ?_, ?_⟩
  · rw [Braces.endsEscaped_append hc, hd]
  · rw [he, hde, List.append_assoc]

end Steps

section Words

variable {word : String} {c d : Cursor}

theorem exists_of_skips_eq {found : Bool} (h : skips word c = .ok (found, d)) :
    found = true ∧ c.rest = word.toList ++ d.rest ∨
      found = false ∧ Text.after? word.toList c.rest = none ∧ d = c := by
  unfold skips at h
  split at h
  · next rest hr =>
    cases h
    exact .inl ⟨rfl, Text.after?_eq_some.1 hr⟩
  · next hr =>
    cases h
    exact .inr ⟨rfl, hr, rfl⟩

theorem append_of_literal_eq (h : literal word c = .ok ((), d)) : c.rest = word.toList ++ d.rest := by
  obtain ⟨found, k, hs, h⟩ := exists_of_bind_eq h
  rcases exists_of_skips_eq hs with ⟨rfl, hc⟩ | ⟨rfl, -⟩
  · obtain ⟨-, rfl⟩ := eq_of_pure_eq h
    exact hc
  · contradiction

theorem append_of_keyword_eq (h : keyword word c = .ok ((), d)) :
    ∃ rest, c.rest.dropWhile Text.isSpacing = word.toList ++ rest := by
  obtain ⟨_, k, hs, h⟩ := exists_of_bind_eq h
  obtain ⟨_, m, hl, -⟩ := exists_of_bind_eq h
  cases hs
  exact ⟨m.rest, append_of_literal_eq hl⟩

end Words

/-! ### The readers of a plot -/

theorem passes_spacing : Passes spacing := by
  intro c _ c' h
  cases h
  refine ⟨c.rest.takeWhile Text.isSpacing, ?_, List.takeWhile_append_dropWhile.symm⟩
  apply Braces.endsEscaped_of_isBlank
  exact fun _ hc => Text.isBlank_of_isSpacing (List.mem_takeWhile_imp hc)

theorem passes_skips {word : String} (hw : Braces.endsEscaped word.toList = false) :
    Passes (skips word) := by
  intro c _ c' h
  unfold skips at h
  split at h
  · next rest hr =>
    cases h
    exact ⟨word.toList, hw, Text.after?_eq_some.1 hr⟩
  · cases h
    exact ⟨[], rfl, rfl⟩

theorem passes_literal {word : String} (hw : Braces.endsEscaped word.toList = false) :
    Passes (literal word) := by
  refine (passes_skips hw).bind fun found => ?_
  cases found with
  | true => exact .pure ()
  | false =>
    intro c a c' h
    contradiction

theorem passes_options : Passes options := by
  intro c _ c' h
  unfold options at h
  split at h
  · next cs hc =>
    split at h
    · next raw b rest hs =>
      cases h
      obtain ⟨hraw, after, ha⟩ := Braces.endsEscaped_of_splitBefore? hs
      have he := Braces.append_of_splitBefore? hs
      obtain ⟨rfl, rfl⟩ := List.cons.inj ha
      refine ⟨'[' :: (raw ++ [']']), ?_, ?_⟩
      · rw [Braces.endsEscaped_cons (by decide), Braces.endsEscaped_append hraw]
        rfl
      · rw [hc, ← he]
        simp
    · cases h
      exact ⟨[], rfl, rfl⟩
  · cases h
    exact ⟨[], rfl, rfl⟩

theorem exists_of_braced_eq {c c' : Cursor} {inner : List Char} (h : braced c = .ok (inner, c')) :
    Braces.Balanced 0 inner ∧ c.rest = '{' :: (inner ++ '}' :: c'.rest) := by
  unfold braced at h
  split at h
  · next cs hc =>
    split at h
    · next i b rest hs =>
      cases h
      obtain ⟨hb, after, ha, hcs⟩ := Braces.splitBefore?_eq_some_iff.1 hs
      obtain ⟨rfl, rfl⟩ := List.cons.inj ha
      exact ⟨hb, by rw [hc, hcs]⟩
    · contradiction
  · contradiction

/-- What stands in a line where a plot is found in it. -/
structure HoldsPlot (line : List Char) (p : Plot) (before inner after : List Char) : Prop where
  line_eq : line = before ++ (inner ++ '}' :: after)
  endsEscaped_eq : Braces.endsEscaped before = false
  balanced : Braces.Balanced 0 inner
  expression_eq : p.expression.toList = Text.trim inner

theorem exists_holdsPlot_of_addplot {axis : Axis} {c c' : Cursor} {e : Element} {p : Plot}
    (h : addplot axis c = .ok (e, c')) (hp : e.figure = .plot p) :
    ∃ before inner after, HoldsPlot c.rest p before inner after := by
  obtain ⟨_, c₁, h₁, h⟩ := exists_of_bind_eq h
  obtain ⟨_, c₂, h₂, h⟩ := exists_of_bind_eq h
  obtain ⟨_, c₃, h₃, h⟩ := exists_of_bind_eq h
  obtain ⟨o, c₄, h₄, h⟩ := exists_of_bind_eq h
  obtain ⟨_, c₅, h₅, h⟩ := exists_of_bind_eq h
  obtain ⟨inner, c₆, h₆, h⟩ := exists_of_bind_eq h
  obtain ⟨_, c₇, -, h⟩ := exists_of_bind_eq h
  obtain ⟨rfl, -⟩ := eq_of_pure_eq h
  cases hp
  obtain ⟨t₁, ht₁, he₁⟩ := passes_literal (by decide) _ _ _ h₁
  obtain ⟨t₂, ht₂, he₂⟩ := passes_skips (by decide) _ _ _ h₂
  obtain ⟨t₃, ht₃, he₃⟩ := passes_spacing _ _ _ h₃
  obtain ⟨t₄, ht₄, he₄⟩ := passes_options _ _ _ h₄
  obtain ⟨t₅, ht₅, he₅⟩ := passes_spacing _ _ _ h₅
  obtain ⟨hb, he₆⟩ := exists_of_braced_eq h₆
  refine ⟨t₁ ++ (t₂ ++ (t₃ ++ (t₄ ++ (t₅ ++ ['{'])))), inner, c₆.rest, ?_, ?_, hb, by simp⟩
  · rw [he₁, he₂, he₃, he₄, he₅, he₆]
    simp
  · rw [Braces.endsEscaped_append ht₁, Braces.endsEscaped_append ht₂, Braces.endsEscaped_append ht₃,
      Braces.endsEscaped_append ht₄, Braces.endsEscaped_append ht₅]
    rfl

/-! ### The readers of everything else -/

theorem gives_circle : Gives circle (·.isPlot = false) := by
  refine .bind fun _ => .bind fun _ => .bind fun _ => .bind fun _ => .bind fun _ => ?_
  refine .bind fun _ => .bind fun _ => .bind fun _ => .bind fun _ => .bind fun _ => ?_
  exact .bind fun _ => .pure rfl

theorem gives_rectangle : Gives rectangle (·.isPlot = false) := by
  refine .bind fun _ => .bind fun _ => .bind fun _ => .bind fun relative => ?_
  cases relative with
  | true => exact .bind fun _ => .bind fun _ => .bind fun _ => .pure rfl
  | false => exact .bind fun _ => .bind fun _ => .pure rfl

theorem gives_line : Gives line (·.isPlot = false) :=
  .bind fun _ => .bind fun _ => .bind fun _ => .bind fun _ => .bind fun _ => .pure rfl

theorem gives_grid : Gives grid (·.isPlot = false) :=
  .bind fun _ => .bind fun _ => .bind fun _ => .bind fun _ => .bind fun _ => .pure rfl

theorem gives_node : Gives node (·.isPlot = false) := by
  refine .bind fun _ => .bind fun _ => .bind fun _ => .bind fun _ => .bind fun _ => ?_
  exact .bind fun _ => .pure rfl

theorem exists_of_readLine_eq {α : Type} {r : Reader α} {line : List Char} {a : α}
    (h : readLine r line = .ok a) : ∃ c', r ⟨0, line⟩ = .ok (a, c') := by
  change (r ⟨0, line⟩).map (·.1) = _ at h
  cases hr : r ⟨0, line⟩ with
  | error m =>
    rw [hr] at h
    contradiction
  | ok p =>
    rw [hr] at h
    cases h
    exact ⟨p.2, rfl⟩

theorem readLine_of_eq {α : Type} {r : Reader α} {line : List Char} {a : α} {c' : Cursor}
    (h : r ⟨0, line⟩ = .ok (a, c')) : readLine r line = .ok a := by
  change (r ⟨0, line⟩).map (·.1) = _
  rw [h]
  rfl

theorem exists_mem_of_firstOf_eq {α : Type} {line : List Char} {rs : List (Reader α)} {a : α}
    (h : firstOf line rs = .ok a) : ∃ r ∈ rs, readLine r line = .ok a := by
  induction rs with
  | nil => contradiction
  | cons r rs ih =>
    rw [firstOf] at h
    cases hr : readLine r line with
    | ok b =>
      rw [hr] at h
      cases h
      exact ⟨r, List.mem_cons_self .., hr⟩
    | error m =>
      rw [hr] at h
      cases hf : firstOf line rs with
      | error n =>
        simp only [hf] at h
        contradiction
      | ok b =>
        simp only [hf] at h
        cases h
        obtain ⟨r', hm, hr'⟩ := ih hf
        exact ⟨r', List.mem_cons_of_mem _ hm, hr'⟩

theorem exists_holdsPlot {axis : Axis} {line : List Char} {e : Element} {p : Plot}
    (h : ofLine axis line = .ok e) (hp : e.figure = .plot p) :
    ∃ before inner after, HoldsPlot line p before inner after := by
  obtain ⟨r, hr, hline⟩ := exists_mem_of_firstOf_eq h
  obtain ⟨c', hc⟩ := exists_of_readLine_eq hline
  have hplot : ¬e.isPlot = false := by simp [Element.isPlot, Element.kind, hp, Figure.kind]
  simp only [table, List.map_cons, List.map_nil, List.mem_cons, List.not_mem_nil, or_false] at hr
  rcases hr with rfl | rfl | rfl | rfl | rfl | rfl
  · exact absurd (gives_circle _ _ _ hc) hplot
  · exact absurd (gives_rectangle _ _ _ hc) hplot
  · exact absurd (gives_line _ _ _ hc) hplot
  · exact absurd (gives_grid _ _ _ hc) hplot
  · exact absurd (gives_node _ _ _ hc) hplot
  · exact exists_holdsPlot_of_addplot hc hp

end Command

/-! ### Lines -/

namespace Reading

theorem command_of_element {axis : Axis} {offset : Nat} {line : List Char} {e : Element}
    (h : ofLine axis offset line = .element e) : Command.ofLine axis (significant line) = .ok e := by
  have hf : ¬IsFrame line := by
    intro hf
    have hn := (unrecorded_of_isFrame hf axis offset).1
    rw [h] at hn
    contradiction
  rw [ofLine_of_not_isFrame hf] at h
  cases hc : Command.ofLine axis (significant line) with
  | error m =>
    rw [hc] at h
    contradiction
  | ok d =>
    rw [hc] at h
    cases h
    rfl

/-- A line feed is the last character of its line, so it stands behind all that is read. -/
theorem break_not_mem_of_significant {text line ds bs : List Char} {c : Char}
    (hl : line ∈ Text.lines text) (h : significant line = ds ++ c :: bs) : '\n' ∉ ds := by
  obtain ⟨before, after, -, -, hs⟩ := Text.exists_trim_eq (stripComment false line)
  obtain ⟨comment, hcomment⟩ := stripComment_prefix false line
  have hwhole : line = (before ++ ds) ++ c :: (bs ++ (after ++ comment)) := by
    rw [← hcomment, hs]
    change before ++ (significant line ++ after) ++ comment = _
    rw [h]
    simp
  have hn := Text.break_not_mem_of_mem_lines hl hwhole
  exact fun hm => hn (List.mem_append_right _ hm)

theorem percent_not_mem_significant (line : List Char) :
    '%' ∉ Braces.unescaped (significant line) := fun hm =>
  percent_not_mem_stripComment line (Braces.unescaped_trim_subset _ hm)

end Reading

/-! ### Expressions -/

namespace Plot

open Braces (Balanced endsEscaped unescaped)

variable {p : Plot}

/-- Expressions that code keeps as they are if they are balanced. -/
structure IsClean (p : Plot) : Prop where
  trim_eq : Text.trim p.expression.toList = p.expression.toList
  break_not_mem : '\n' ∉ p.expression.toList
  percent_not_mem : '%' ∉ unescaped p.expression.toList
  /-- The trimmed text is balanced, and still is without the blanks around it, if none was escaped. -/
  balanced : endsEscaped p.expression.toList = false → Balanced 0 p.expression.toList

/-- The trimmed contents of braces on one line, outside of comments. -/
theorem isClean_of_trim {inner : List Char} (he : p.expression.toList = Text.trim inner)
    (hb : Balanced 0 inner) (hn : '\n' ∉ inner) (hp : '%' ∉ unescaped inner) : p.IsClean where
  trim_eq := by rw [he, Text.trim_trim]
  break_not_mem hm := by
    rw [he] at hm
    obtain ⟨before, after, -, -, hi⟩ := Text.exists_trim_eq inner
    apply hn
    rw [hi]
    exact List.mem_append_right _ (List.mem_append_left _ hm)
  percent_not_mem hm := by
    rw [he] at hm
    exact hp (Braces.unescaped_trim_subset inner hm)
  balanced hc := by
    rw [he] at hc ⊢
    exact hb.trim hc

theorem isClean_of_ofLine {text line : List Char} (hl : line ∈ Text.lines text) {axis : Axis}
    {offset : Nat} {e : Element} (h : Reading.ofLine axis offset line = .element e)
    (hp : e.figure = .plot p) : p.IsClean := by
  obtain ⟨before, inner, after, hline, he, hb, hexp⟩ :=
    Command.exists_holdsPlot (Reading.command_of_element h) hp
  apply isClean_of_trim hexp hb
  · have hwhole : Reading.significant line = (before ++ inner) ++ '}' :: after := by
      rw [hline, List.append_assoc]
    have hn := Reading.break_not_mem_of_significant hl hwhole
    exact fun hm => hn (List.mem_append_right _ hm)
  · intro hm
    apply Reading.percent_not_mem_significant line
    rw [hline, Braces.unescaped_append he]
    exact List.mem_append_right _ (Braces.unescaped_subset_append _ _ hm)

end Plot

theorem Document.isClean_of_mem_elements {text : String} {e : Element} {p : Plot}
    (he : e ∈ (ofText text).elements) (hp : e.figure = .plot p) : p.IsClean := by
  obtain ⟨r, hr, hre⟩ := List.mem_filterMap.1 he
  obtain ⟨line, hl, axis, offset, rfl⟩ := Reading.exists_of_mem_ofLines hr
  cases hline : Reading.ofLine axis offset line with
  | element d =>
    rw [hline] at hre
    cases hre
    exact Plot.isClean_of_ofLine hl hline hp
  | nothing =>
    rw [hline] at hre
    contradiction
  | axis a =>
    rw [hline] at hre
    contradiction
  | skipped d =>
    rw [hline] at hre
    contradiction

end Sketch
