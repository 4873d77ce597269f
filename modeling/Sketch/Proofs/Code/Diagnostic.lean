import Sketch.Proofs.Code.Cursor
import Sketch.Proofs.Code.Document

/-!
Where the warnings of a text point. What is read of a line is a part of the line, and the line is a
part of the text; a warning is about the first, and is moved into the text once.
-/

namespace Sketch

theorem Span.ofBounds_shift (length n : Nat) :
    (ofBounds 0 length).shift n = ofBounds n (n + length) := by
  simp [shift, ofBounds, Nat.add_comm]

namespace Reading

variable {axis : Axis} {offset : Nat} {line : List Char} {d : Diagnostic} {m : Mismatch}

/-- The span of what is read of the line at `offset`. -/
def extent (offset : Nat) (line : List Char) : Span :=
  .ofBounds (offset + indentation line) (offset + indentation line + Text.size (significant line))

theorem exists_eq_append_significant (line : List Char) : ∃ lead rest : List Char,
    line = lead ++ (significant line ++ rest) ∧ indentation line = Text.size lead := by
  obtain ⟨comment, hcomment⟩ := stripComment_prefix false line
  obtain ⟨blanks, -, hblanks⟩ := Text.exists_trimEnd_eq (Text.trimStart (stripComment false line))
  have hcode : stripComment false line =
      (stripComment false line).takeWhile Text.isBlank ++ Text.trimStart (stripComment false line) :=
    List.takeWhile_append_dropWhile.symm
  refine ⟨(stripComment false line).takeWhile Text.isBlank, blanks ++ comment, ?_, rfl⟩
  calc
    line = stripComment false line ++ comment := hcomment.symm
    _ = (stripComment false line).takeWhile Text.isBlank ++
        Text.trimStart (stripComment false line) ++ comment := by rw [← hcode]
    _ = (stripComment false line).takeWhile Text.isBlank ++
        (significant line ++ blanks) ++ comment := by rw [hblanks]; rfl
    _ = _ := by simp

theorem covers_extent {text before after : List Char} (h : text = before ++ (line ++ after)) :
    (extent (Text.size before) line).Covers text (significant line) := by
  obtain ⟨lead, rest, hline, hlead⟩ := exists_eq_append_significant line
  rw [extent, hlead, ← Text.size_append]
  have htext : text = (before ++ lead) ++ (significant line ++ (rest ++ after)) := calc
    text = before ++ (lead ++ (significant line ++ rest) ++ after) := by rw [← hline, h]
    _ = _ := by simp
  exact .ofBounds htext

theorem extent_on_line (offset : Nat) (line : List Char) :
    offset ≤ (extent offset line).start ∧ (extent offset line).stop ≤ offset + Text.size line := by
  obtain ⟨lead, rest, hline, hlead⟩ := exists_eq_append_significant line
  have hsize := congrArg Text.size hline
  simp only [Text.size_append] at hsize
  obtain ⟨hstart, hstop⟩ := Span.ofBounds_add (offset + indentation line) (Text.size (significant line))
  rw [extent, hstart, hstop]
  omega

/-- The spans of a warning about the line at `offset`. The secondary span is all of the line that is
read. The primary one is the same, or a number on the line that cannot be read. -/
structure Points (text : String) (offset : Nat) (line : List Char) (code : Option Code)
    (primary secondary : Span) : Prop where
  cuts : secondary.Cuts text (String.ofList (significant line))
  on_line : offset ≤ secondary.start ∧ secondary.stop ≤ offset + Text.size line
  within : secondary.start ≤ primary.start ∧ primary.stop ≤ secondary.stop
  cause : (code = some .unrecognized ∧ primary = secondary) ∨
    (code = some .malformedLiteral ∧ ∃ run, primary.Cuts text (String.ofList run) ∧ run ≠ [] ∧
      (∀ c ∈ run, Command.isNumberChar c = true) ∧ Number.readFinite? run = none)

/-- The diagnostic is a warning about the line at `offset`, and its two marks point there. -/
def Warns (text : String) (offset : Nat) (line : List Char) (d : Diagnostic) : Prop :=
  d.severity = .warning ∧ ∃ primary secondary message context,
    d.marks = [⟨primary, message, true⟩, ⟨secondary, context, false⟩] ∧
      Points text offset line d.code primary secondary

theorem marks_warning_shape (offset : Nat) (line : List Char) :
    (warning offset line .shape).marks =
      [⟨extent offset line, Code.unrecognized.description, true⟩,
        ⟨extent offset line, "this line is left as written", false⟩] := by
  have hmarks : (warning offset line .shape).marks =
      [⟨(Span.ofBounds 0 (Text.size (significant line))).shift (offset + indentation line), _, true⟩,
        ⟨extent offset line, _, false⟩] := rfl
  rw [hmarks, Span.ofBounds_shift]
  rfl

theorem warns_warning {text : String} {before after : List Char}
    (h : text.toList = before ++ (line ++ after))
    (hm : ∀ s, m = .number s → Command.IsMalformed s (significant line)) :
    Warns text (Text.size before) line (warning (Text.size before) line m) := by
  have hcovers := covers_extent h
  have hon := extent_on_line (Text.size before) line
  cases m with
  | shape =>
    refine ⟨rfl, _, _, _, _, marks_warning_shape _ line, hcovers.cuts, hon, ?_, .inl ⟨rfl, rfl⟩⟩
    exact ⟨Nat.le_refl _, Nat.le_refl _⟩
  | number s =>
    obtain ⟨run, hrun, hne, hchars, hnone⟩ := hm s rfl
    refine ⟨rfl, _, extent (Text.size before) line, _, _, rfl, hcovers.cuts, hon,
      hcovers.start_le_shift hrun, .inr ⟨rfl, run, ?_, hne, hchars, hnone⟩⟩
    exact (hcovers.shift hrun).cuts

theorem warns_of_ofLine {text : String} {before after : List Char}
    (h : text.toList = before ++ (line ++ after))
    (hd : ofLine axis (Text.size before) line = .skipped d) : Warns text (Text.size before) line d := by
  have hf : ¬IsFrame line := by
    intro hf
    have hn := (unrecorded_of_isFrame hf axis (Text.size before)).2
    rw [hd] at hn
    contradiction
  rw [ofLine_of_not_isFrame hf] at hd
  cases hc : Command.ofLine axis (significant line) with
  | ok e =>
    rw [hc] at hd
    contradiction
  | error m =>
    rw [hc] at hd
    cases hd
    exact warns_warning h fun s hs => Command.isMalformed_of_ofLine (hs ▸ hc)

/-- Every warning is about a line of its own, in the order of the lines. -/
theorem exists_sublist_located (axis : Axis) (offset : Nat) (ls : List (List Char)) :
    ∃ places, List.Sublist places (Text.located offset ls) ∧
      List.Forall₂ (fun p d => ∃ a, ofLine a p.1 p.2 = .skipped d) places
        ((ofLines axis offset ls).filterMap diagnostic?) := by
  induction ls generalizing axis offset with
  | nil => exact ⟨[], .slnil, .nil⟩
  | cons l ls ih =>
    obtain ⟨places, hsub, hall⟩ := ih ((ofLine axis offset l).axisAfter axis) (offset + Text.size l)
    rw [ofLines, List.filterMap_cons]
    cases hr : ofLine axis offset l with
    | skipped d =>
      rw [hr] at hall
      exact ⟨(offset, l) :: places, hsub.cons_cons _, .cons ⟨axis, hr⟩ hall⟩
    | nothing | axis | element =>
      rw [hr] at hall
      exact ⟨places, hsub.cons _, hall⟩

end Reading

namespace Document

/-- There is one warning for each line that is skipped, in the order of the lines. Its secondary span
cuts what is read of the line out of the text, and its primary span a part of that: all of it if the
line has the shape of no command, and otherwise a number that cannot be read. -/
theorem diagnostics_point (text : String) :
    (ofText text).diagnostics.length = (ofText text).skipped ∧
      ∃ places, List.Sublist places (Text.located 0 (Text.lines text.toList)) ∧
        places.Pairwise (fun p q => p.1 + Text.size p.2 ≤ q.1) ∧
        List.Forall₂ (fun p d => Reading.Warns text p.1 p.2 d) places (ofText text).diagnostics := by
  obtain ⟨places, hsub, hall⟩ := Reading.exists_sublist_located {} 0 (Text.lines text.toList)
  refine ⟨(skipped_eq _).symm, places, hsub, (Text.pairwise_located _ _).sublist hsub, ?_⟩
  refine ((List.forall₂_and_left _ _).2 ⟨fun p hp => hsub.subset hp, hall⟩).imp ?_
  rintro ⟨offset, line⟩ d ⟨hp, a, hd⟩
  obtain ⟨before, after, hls, ho⟩ := Text.exists_of_mem_located hp
  rw [Nat.zero_add] at ho
  subst ho
  have htext : text.toList = before.flatten ++ (line ++ after.flatten) := by
    rw [← Text.flatten_lines text.toList, hls, List.flatten_append, List.flatten_cons]
  exact Reading.warns_of_ofLine htext hd

example : (ofText "% é\n  \\draw (1.2.3,0) -- (1,1);").diagnostics.map
    (·.marks.map fun m => (m.span.start, m.span.stop)) = [[(14, 19), (7, 32)]] := by
  decide +kernel

end Document

end Sketch
