import Sketch.Proofs.Code.Diagnostic

/-!
Lines are read one by one. All that a line leaves to the lines after it is the axis that is open, and
where a line stands shows in the marks of its warning only. So the reading of a text is put together
from those of its parts.
-/

namespace Sketch

namespace Diagnostic

theorem shift_shift (d : Diagnostic) (m n : Nat) : (d.shift m).shift n = d.shift (m + n) := by
  simp [shift, Mark.shift, Function.comp_def]

theorem shift_context (d : Diagnostic) (span : Span) (message : String) (n : Nat) :
    (d.context span message).shift n = (d.shift n).context (span.shift n) message := by
  simp [shift, context, Mark.shift]

end Diagnostic

namespace Reading

variable {axis : Axis} {offset n : Nat} {l : List Char} {ls ms : List (List Char)} {r : Reading}

/-! ### Where a line stands -/

/-- The reading of the same line further on. -/
def shift (n : Nat) : Reading → Reading
  | .skipped d => .skipped (d.shift n)
  | r => r

theorem axisAfter_shift (n : Nat) (axis : Axis) (r : Reading) :
    (r.shift n).axisAfter axis = r.axisAfter axis := by
  cases r <;> rfl

theorem element?_shift (n : Nat) (r : Reading) : (r.shift n).element? = r.element? := by
  cases r <;> rfl

theorem diagnostic?_shift (n : Nat) (r : Reading) :
    (r.shift n).diagnostic? = r.diagnostic?.map (·.shift n) := by
  cases r <;> rfl

theorem warning_shift (offset n : Nat) (line : List Char) (m : Mismatch) :
    warning (offset + n) line m = (warning offset line m).shift n := by
  unfold warning
  dsimp only
  rw [Diagnostic.shift_context, Diagnostic.shift_shift, Span.shift_ofBounds_add, Nat.add_right_comm]

theorem ofLine_shift (axis : Axis) (offset n : Nat) (line : List Char) :
    ofLine axis (offset + n) line = (ofLine axis offset line).shift n := by
  unfold ofLine
  dsimp only
  split
  · rfl
  · split
    · rfl
    · split
      · rfl
      · split
        · rfl
        · rw [warning_shift]
          rfl

theorem ofLines_shift (axis : Axis) (offset n : Nat) (ls : List (List Char)) :
    ofLines axis (offset + n) ls = (ofLines axis offset ls).map (shift n) := by
  induction ls generalizing axis offset with
  | nil => rfl
  | cons l ls ih =>
    rw [ofLines, ofLines, ofLine_shift, axisAfter_shift, List.map_cons, Nat.add_right_comm, ih]

/-! ### What a line leaves behind -/

/-- The axis after a line. -/
def axisThrough (before : Axis) (line : List Char) : Axis :=
  if significant line = Command.axisEnd.toList then {}
  else (Command.axis? (significant line)).getD before

/-- What frames the picture does not bound an axis block. -/
theorem not_bounds_axis {code : List Char} (h : code = [] ∨ Command.pictureBegin.toList <+: code ∨
    code = Command.pictureEnd.toList) :
    code ≠ Command.axisEnd.toList ∧ Command.axis? code = none := by
  rcases h with rfl | h | rfl
  · exact ⟨by decide, Command.axis?_eq_none_iff.2 (by decide)⟩
  · refine ⟨?_, Command.axis?_eq_none_iff.2 fun hb => ?_⟩
    · rintro rfl
      exact absurd h (by decide)
    · have hp : Command.axisBegin.toList <+: Command.pictureBegin.toList :=
        List.prefix_of_prefix_length_le hb h (by decide)
      exact absurd hp (by decide)
  · exact ⟨by decide, Command.axis?_eq_none_iff.2 (by decide)⟩

theorem axisAfter_ofLine (axis : Axis) (offset : Nat) (line : List Char) :
    (ofLine axis offset line).axisAfter axis = axisThrough axis line := by
  unfold ofLine axisThrough
  dsimp only
  split
  · next h =>
    rw [List.isEmpty_iff, List.isPrefixOf_iff_prefix] at h
    obtain ⟨hn, ho⟩ := not_bounds_axis h
    rw [if_neg hn, ho]
    rfl
  · split
    · rfl
    · split
      · next h =>
        rw [h]
        rfl
      · next h =>
        rw [h]
        split
        · rfl
        · rfl

theorem length_ofLines (axis : Axis) (offset : Nat) (ls : List (List Char)) :
    (ofLines axis offset ls).length = ls.length := by
  induction ls generalizing axis offset with
  | nil => rfl
  | cons l ls ih => rw [ofLines, List.length_cons, List.length_cons, ih]

theorem ofLines_append (axis : Axis) (offset : Nat) (ls ms : List (List Char)) :
    ofLines axis offset (ls ++ ms) =
      ofLines axis offset ls ++ ofLines (ls.foldl axisThrough axis) (offset + Text.size ls.flatten) ms := by
  induction ls generalizing axis offset with
  | nil => rfl
  | cons l ls ih =>
    rw [List.cons_append, ofLines, ofLines, ih, axisAfter_ofLine, List.flatten_cons, Text.size_append,
      Nat.add_assoc]
    rfl

/-- The axis that the lines leave open: that of the last line that opens one, if no line after it ends
the block. -/
def openAxis (ls : List (List Char)) : Axis :=
  ((ls.reverse.takeWhile (significant · ≠ Command.axisEnd.toList)).findSome?
    (Command.axis? ∘ significant)).getD {}

theorem openAxis_concat (ls : List (List Char)) (l : List Char) :
    openAxis (ls ++ [l]) = axisThrough (openAxis ls) l := by
  unfold openAxis axisThrough
  rw [List.reverse_append, List.reverse_singleton, List.singleton_append]
  by_cases h : significant l = Command.axisEnd.toList
  · rw [List.takeWhile_cons_of_neg (by simpa using h), if_pos h]
    rfl
  · rw [List.takeWhile_cons_of_pos (by simpa using h), if_neg h, List.findSome?_cons,
      Function.comp_apply]
    cases Command.axis? (significant l) <;> rfl

theorem foldl_axisThrough (ls : List (List Char)) : ls.foldl axisThrough {} = openAxis ls := by
  induction ls using List.reverseRecOn with
  | nil => rfl
  | append_singleton ls l ih => rw [List.foldl_append, ih, openAxis_concat]; rfl

/-- A line that bounds an axis block, and so has a say in how the lines after it are read. -/
def BoundsAxis (line : List Char) : Prop :=
  significant line = Command.axisEnd.toList ∨ Command.axisBegin.toList <+: significant line

theorem axisThrough_eq_self (h : ¬BoundsAxis l) (axis : Axis) : axisThrough axis l = axis := by
  obtain ⟨he, hb⟩ := not_or.1 h
  rw [axisThrough, if_neg he, Command.axis?_eq_none_iff.2 hb]
  rfl

instance (line : List Char) : Decidable (BoundsAxis line) := inferInstanceAs (Decidable (_ ∨ _))

theorem BoundsAxis.isFrame (h : BoundsAxis l) : IsFrame l := .inr (.inr (.inr h))

theorem openAxis_eq_default (h : ∀ l ∈ ls, ¬BoundsAxis l) : openAxis ls = {} := by
  induction ls using List.reverseRecOn with
  | nil => rfl
  | append_singleton ls l ih =>
    rw [openAxis_concat, axisThrough_eq_self (h l (by simp)), ih fun k hk => h k (by simp [hk])]

/-! ### Elements -/

/-- The elements on lines, the first of which stands under the axis. -/
def elementsUnder (axis : Axis) (ls : List (List Char)) : List Element :=
  (ofLines axis 0 ls).filterMap element?

theorem filterMap_element?_ofLines (axis : Axis) (offset : Nat) (ls : List (List Char)) :
    (ofLines axis offset ls).filterMap element? = elementsUnder axis ls := by
  have hshift := ofLines_shift axis 0 offset ls
  rw [Nat.zero_add] at hshift
  rw [hshift, List.filterMap_map]
  exact congrArg (List.filterMap · _) (funext (element?_shift offset))

theorem elementsUnder_append (axis : Axis) (ls ms : List (List Char)) : elementsUnder axis (ls ++ ms) =
    elementsUnder axis ls ++ elementsUnder (ls.foldl axisThrough axis) ms := by
  rw [elementsUnder, ofLines_append, List.filterMap_append, filterMap_element?_ofLines,
    filterMap_element?_ofLines]

theorem elementsUnder_cons (axis : Axis) (l : List Char) (ls : List (List Char)) :
    elementsUnder axis (l :: ls) =
      (ofLine axis 0 l).element?.toList ++ elementsUnder (axisThrough axis l) ls := by
  rw [elementsUnder, ofLines, axisAfter_ofLine, List.filterMap_cons, filterMap_element?_ofLines]
  cases (ofLine axis 0 l).element? <;> rfl

/-- Blocks of lines that leave no axis open do not meddle with each other. -/
theorem elementsUnder_flatMap {α : Type} {f : α → List (List Char)} {as : List α}
    (h : ∀ a ∈ as, openAxis (f a) = {}) :
    elementsUnder {} (as.flatMap f) = as.flatMap fun a => elementsUnder {} (f a) := by
  induction as with
  | nil => rfl
  | cons a as ih =>
    obtain ⟨ha, has⟩ := List.forall_mem_cons.1 h
    rw [List.flatMap_cons, elementsUnder_append, foldl_axisThrough, ha, ih has, List.flatMap_cons]

section Rewritten

variable {f : List Char → List Char}

theorem openAxis_map (h : ∀ l, significant (f l) = significant l) (ls : List (List Char)) :
    openAxis (ls.map f) = openAxis ls := by
  have hf : (fun axis l => axisThrough axis (f l)) = axisThrough := by
    funext axis l
    rw [axisThrough, h, axisThrough]
  rw [← foldl_axisThrough, List.foldl_map, hf, foldl_axisThrough]

theorem element?_ofLine_map (h : ∀ l, significant (f l) = significant l) (axis : Axis) (offset : Nat)
    (l : List Char) : (ofLine axis offset (f l)).element? = (ofLine axis offset l).element? := by
  unfold ofLine
  dsimp only
  rw [h]
  split
  · rfl
  · split
    · rfl
    · split
      · rfl
      · split
        · rfl
        · rfl

/-- Lines are read by what is significant of them. -/
theorem elementsUnder_map (h : ∀ l, significant (f l) = significant l) (axis : Axis)
    (ls : List (List Char)) : elementsUnder axis (ls.map f) = elementsUnder axis ls := by
  induction ls generalizing axis with
  | nil => rfl
  | cons l ls ih =>
    rw [List.map_cons, elementsUnder_cons, elementsUnder_cons, element?_ofLine_map h, ih, axisThrough, h,
      axisThrough]

end Rewritten

end Reading

namespace Document

/-- Reads a text whose first lines stand under an axis that is open already. -/
def ofTextUnder (axis : Axis) (text : String) : Document :=
  ⟨Reading.ofLines axis 0 (Text.lines text.toList)⟩

/-- One document is two others, the second of which starts at the offset. -/
structure Joins (offset : Nat) (first second whole : Document) : Prop where
  elements_eq : whole.elements = first.elements ++ second.elements
  skipped_eq : whole.skipped = first.skipped + second.skipped
  diagnostics_eq : whole.diagnostics = first.diagnostics ++ second.diagnostics.map (·.shift offset)

theorem joins_of_readings {offset : Nat} {first second whole : Document}
    (h : whole.readings = first.readings ++ second.readings.map (Reading.shift offset)) :
    Joins offset first second whole := by
  have he : whole.elements = first.elements ++ second.elements := by
    rw [elements, h, List.filterMap_append, List.filterMap_map]
    simp only [Function.comp_def, Reading.element?_shift]
    rfl
  have hd : whole.diagnostics =
      first.diagnostics ++ second.diagnostics.map (·.shift offset) := by
    rw [diagnostics, h, List.filterMap_append, List.filterMap_map]
    simp only [Function.comp_def, Reading.diagnostic?_shift]
    rw [diagnostics, diagnostics, List.map_filterMap]
  refine ⟨he, ?_, hd⟩
  rw [skipped_eq, skipped_eq, skipped_eq, hd, List.length_append, List.length_map]

/-! ### Parts of a text -/

section Parts

variable {a : String}

theorem readings_append (ha : Text.EndsLine a.toList) (b : String) : (ofText (a ++ b)).readings =
    (ofText a).readings ++ (ofTextUnder (Reading.openAxis (Text.lines a.toList)) b).readings.map
      (Reading.shift a.utf8ByteSize) := by
  have hsize : a.utf8ByteSize = Text.size a.toList := by
    rw [Text.size_eq_utf8Len, ← String.utf8ByteSize_ofList, String.ofList_toList]
  rw [ofText, String.toList_append, ha.lines_append, Reading.ofLines_append, Reading.foldl_axisThrough,
    Reading.ofLines_shift, Text.flatten_lines, hsize]
  rfl

/-- The line after a part of the text leaves what is read behind it as it is. -/
theorem readings_append_line (ha : Text.EndsLine a.toList) {b : String} {l : List Char}
    {after : List (List Char)} (hb : Text.lines b.toList = l :: after) (hl : ¬Reading.BoundsAxis l) :
    ∃ r, (ofText (a ++ b)).readings = (ofText a).readings ++ r ::
      (Reading.ofLines (Reading.openAxis (Text.lines a.toList)) a.utf8ByteSize after).map
        (Reading.shift (Text.size l)) := by
  rw [readings_append ha, ofTextUnder, hb, Reading.ofLines, Reading.axisAfter_ofLine,
    Reading.axisThrough_eq_self hl, List.map_cons, ← Reading.ofLines_shift, ← Reading.ofLines_shift,
    Nat.zero_add, Nat.add_comm (Text.size l)]
  exact ⟨_, rfl⟩

/-- Texts are read line by line. If one text ends a line, it is read as it is alone, and another text
behind it as it is under the axis that the first one leaves open, with its marks moved by the bytes of
the first one. What the lines after a line are read as does not depend on that line, unless it bounds
an axis block. -/
theorem ofText_append (ha : Text.EndsLine a.toList) (b : String) :
    Joins a.utf8ByteSize (ofText a) (ofTextUnder (Reading.openAxis (Text.lines a.toList)) b)
      (ofText (a ++ b)) ∧
    (Reading.openAxis (Text.lines a.toList) = {} →
      Joins a.utf8ByteSize (ofText a) (ofText b) (ofText (a ++ b))) ∧
    ∀ b' l l' after, Text.lines b.toList = l :: after → Text.lines b'.toList = l' :: after →
      ¬Reading.BoundsAxis l → ¬Reading.BoundsAxis l' →
      ∃ (r r' : Reading) (rest : List Reading), rest.length = after.length ∧
        (ofText (a ++ b)).readings =
          (ofText a).readings ++ r :: rest.map (Reading.shift (Text.size l)) ∧
        (ofText (a ++ b')).readings =
          (ofText a).readings ++ r' :: rest.map (Reading.shift (Text.size l')) := by
  have hjoins := joins_of_readings (readings_append ha b)
  refine ⟨hjoins, fun hx => ?_, fun b' l l' after hb hb' hl hl' => ?_⟩
  · rwa [hx] at hjoins
  · obtain ⟨r, hr⟩ := readings_append_line ha hb hl
    obtain ⟨r', hr'⟩ := readings_append_line ha hb' hl'
    exact ⟨r, r', _, Reading.length_ofLines .., hr, hr'⟩

/-- Opens an axis block and leaves it open. -/
def opening : String := "\\begin\x7baxis\x7d[samples=7]\n"

theorem ofText_append_opening : (Reading.openAxis (Text.lines opening.toList)).samples = 7 ∧
    Joins opening.utf8ByteSize (ofText opening)
      (ofTextUnder (Reading.openAxis (Text.lines opening.toList)) "\\addplot \x7bx\x7d;")
      (ofText (opening ++ "\\addplot \x7bx\x7d;")) := by
  have ha : Text.EndsLine opening.toList := .inr (by decide +kernel)
  exact ⟨by decide +kernel, (ofText_append ha _).1⟩

end Parts

end Document

end Sketch
