import Mathlib.Logic.Relation
import Sketch.Proofs.Code.Locality

/-!
The layout of a text: the blanks around what its lines say, its comments, its blank lines and its line
ends. None of them matters. Texts that differ in layout only have the same elements and the same
warnings, and the marks of these warnings cut the same words out of either text.
-/

namespace Sketch

/-! ### Changes of layout -/

namespace Text

/-- Blanks that stand on one line. -/
structure IsGap (cs : List Char) : Prop where
  isBlank : IsBlank cs
  break_not_mem : '\n' ∉ cs

/-- What goes on behind the characters of a line: its line feed, or nothing if the text ends there. -/
def AtBreak (cs : List Char) : Prop := cs = [] ∨ ∃ rest, cs = '\n' :: rest

/-- A line, but for its line feed, with nothing on it or nothing but a comment. -/
def IsVoid (line : List Char) : Prop :=
  IsGap line ∨ ∃ gap words, IsGap gap ∧ '\n' ∉ words ∧ line = gap ++ '%' :: words

/-- All line feeds with a carriage return before them. -/
def withReturns (cs : List Char) : List Char := cs.flatMap fun c => if c = '\n' then ['\r', '\n'] else [c]

end Text

namespace Layout

open Text (EndsLine IsGap AtBreak IsVoid)

/-- A change to the layout of a text, in one place. -/
inductive Edit : List Char → List Char → Prop
  | indentation {before gap gap' after} : EndsLine before → IsGap gap → IsGap gap' →
      Edit (before ++ (gap ++ after)) (before ++ (gap' ++ after))
  | trailing {before gap gap' after} : IsGap gap → IsGap gap' → AtBreak after →
      Edit (before ++ (gap ++ after)) (before ++ (gap' ++ after))
  /-- A comment at the end of a line, with blanks before it. -/
  | comment {before gap words after} : IsGap gap → gap ≠ [] → '\n' ∉ words → AtBreak after →
      Edit (before ++ after) (before ++ (gap ++ '%' :: words ++ after))
  /-- A line before another one, or at the end of a text that ends with a line feed. -/
  | line {before line after} : EndsLine before → IsVoid line →
      Edit (before ++ after) (before ++ (line ++ '\n' :: after))
  /-- A line at the end of a text, where the line before it may have no line feed yet. -/
  | lastLine {text line} : IsVoid line → Edit text (text ++ '\n' :: line)
  | lineEnd {before after} : Edit (before ++ '\n' :: after) (before ++ '\r' :: '\n' :: after)

/-- Texts that differ in layout only, in any number of places. -/
def Same : List Char → List Char → Prop := Relation.EqvGen Edit

end Layout

namespace Text

variable {cs : List Char}

theorem same_withReturns (front cs : List Char) : Layout.Same (front ++ cs) (front ++ withReturns cs) := by
  induction cs generalizing front with
  | nil => exact .refl _
  | cons c cs ih =>
    by_cases hc : c = '\n'
    · subst hc
      have htail := ih (front ++ ['\r', '\n'])
      rw [List.append_assoc, List.append_assoc] at htail
      exact .trans _ _ _ (.rel _ _ .lineEnd) htail
    · have htail := ih (front ++ [c])
      rw [List.append_assoc, List.append_assoc] at htail
      rw [withReturns, List.flatMap_cons, if_neg hc]
      exact htail

theorem IsGap.nil : IsGap [] := ⟨List.forall_mem_nil _, List.not_mem_nil⟩

/-- The last line that a text has begun. -/
theorem exists_endsLine (cs : List Char) : ∃ lines line, cs = lines ++ line ∧ EndsLine lines ∧ '\n' ∉ line := by
  induction cs using List.reverseRecOn with
  | nil => exact ⟨[], [], rfl, .inl rfl, List.not_mem_nil⟩
  | append_singleton cs c ih =>
    by_cases hc : c = '\n'
    · subst hc
      exact ⟨cs ++ ['\n'], [], (List.append_nil _).symm, .concat cs, List.not_mem_nil⟩
    · obtain ⟨lines, line, rfl, he, hn⟩ := ih
      refine ⟨lines, line ++ [c], List.append_assoc .., he, ?_⟩
      rw [List.mem_append, List.mem_singleton, not_or]
      exact ⟨hn, Ne.symm hc⟩

/-- The rest of the line in which a text starts. -/
theorem exists_atBreak (cs : List Char) : ∃ line after, cs = line ++ after ∧ '\n' ∉ line ∧ AtBreak after := by
  induction cs with
  | nil => exact ⟨[], [], rfl, List.not_mem_nil, .inl rfl⟩
  | cons c cs ih =>
    by_cases hc : c = '\n'
    · subst hc
      exact ⟨[], _, rfl, List.not_mem_nil, .inr ⟨cs, rfl⟩⟩
    · obtain ⟨line, after, rfl, hn, ha⟩ := ih
      refine ⟨c :: line, after, rfl, ?_, ha⟩
      rw [List.mem_cons, not_or]
      exact ⟨Ne.symm hc, hn⟩

theorem break_not_mem_of_isVoid {line : List Char} (h : IsVoid line) : '\n' ∉ line := by
  rcases h with h | ⟨gap, words, h, hw, rfl⟩
  · exact h.break_not_mem
  · rw [List.mem_append, List.mem_cons, not_or, not_or]
    exact ⟨h.break_not_mem, by decide, hw⟩

theorem lines_of_break_not_mem (h : '\n' ∉ cs) (hne : cs ≠ []) : lines cs = [cs] := by
  obtain ⟨front, c, rfl⟩ := cs.eq_nil_or_concat.resolve_left hne
  rw [List.concat_eq_append, List.mem_append, List.mem_singleton, not_or] at h
  have hc : lines [c] = [[c]] := by
    rw [lines_cons_of_ne (Ne.symm h.2)]
    rfl
  rw [List.concat_eq_append, lines_append h.1 hc]

end Text

/-! ### What is read of a line -/

namespace Reading

open Text (IsBlank EndsLine IsGap AtBreak IsVoid)

/-- What is read of lines: the significant part of each, if it has one. -/
def contents (ls : List (List Char)) : List (List Char) := (ls.map significant).filter (!·.isEmpty)

/-- Lines of which the same is read, one by one, but for those of which nothing is. -/
inductive Relaid : List (List Char) → List (List Char) → Prop
  | nil : Relaid [] []
  | both {l m ls ms} : significant l = significant m → Relaid ls ms → Relaid (l :: ls) (m :: ms)
  | left {l ls ms} : significant l = [] → Relaid ls ms → Relaid (l :: ls) ms
  | right {m ls ms} : significant m = [] → Relaid ls ms → Relaid ls (m :: ms)

variable {line gap cs ds before after l : List Char} {ls ms : List (List Char)}

/-- Behind a blank a percent sign is not escaped, whatever the line ends with. -/
theorem stripComment_append_remark (hg : IsBlank gap) (hne : gap ≠ []) (words : List Char) (escaped : Bool)
    (line : List Char) :
    stripComment escaped (line ++ (gap ++ '%' :: words)) = stripComment escaped (line ++ gap) := by
  induction line generalizing escaped with
  | nil =>
    obtain ⟨g, gs, rfl⟩ := List.exists_cons_of_ne_nil hne
    obtain ⟨hg, hgs⟩ := List.forall_mem_cons.1 hg
    obtain ⟨hb, -, -, hp⟩ := Braces.ne_of_isBlank hg
    have hu : '%' ∉ Braces.unescaped gs := by
      rw [Braces.unescaped_of_isBlank hgs]
      exact fun hm => (Braces.ne_of_isBlank (hgs _ hm)).2.2.2 rfl
    have hcut : stripComment false (gs ++ '%' :: words) = gs := by
      rw [stripComment_append hu (Braces.endsEscaped_of_isBlank hgs)]
      exact List.append_nil gs
    rw [List.nil_append, List.nil_append, List.cons_append, stripComment, stripComment, if_neg hb, if_neg hb,
      if_neg fun h => hp h.1, if_neg fun h => hp h.1, hcut, stripComment_eq_self hu]
  | cons c line ih =>
    rw [List.cons_append, List.cons_append, stripComment, stripComment, ih, ih]

theorem significant_append_remark (hg : IsBlank gap) (hne : gap ≠ []) (line words : List Char) :
    significant (line ++ (gap ++ '%' :: words)) = significant line := by
  rw [significant, stripComment_append_remark hg hne, ← significant, significant_append_right line hg]

theorem significant_of_isVoid (h : IsVoid line) : significant line = [] := by
  rcases h with h | ⟨gap, words, h, -, rfl⟩
  · rw [← List.append_nil line, significant_append_left h.isBlank]
    rfl
  · rw [significant_append_left h.isBlank]
    rfl

theorem significant_concat_break (line : List Char) : significant (line ++ ['\n']) = significant line :=
  significant_append_right line (List.forall_mem_singleton.2 rfl)

/-! ### What is read of a text -/

theorem contents_append (ls ms : List (List Char)) : contents (ls ++ ms) = contents ls ++ contents ms := by
  rw [contents, List.map_append, List.filter_append, contents, contents]

theorem contents_cons (l : List Char) (ls : List (List Char)) :
    contents (l :: ls) = if significant l = [] then contents ls else significant l :: contents ls := by
  rw [contents, List.map_cons, List.filter_cons, contents]
  simp

theorem contents_lines_append (h : EndsLine cs) (ds : List Char) :
    contents (Text.lines (cs ++ ds)) = contents (Text.lines cs) ++ contents (Text.lines ds) := by
  rw [h.lines_append, contents_append]

/-- A line feed by itself counts for nothing. -/
theorem contents_break (cs : List Char) : contents (Text.lines ('\n' :: cs)) = contents (Text.lines cs) := by
  have hl : Text.lines ('\n' :: cs) = ['\n'] :: Text.lines cs := rfl
  rw [hl, contents_cons, if_pos (show significant ['\n'] = [] from rfl)]

theorem contents_line (h : '\n' ∉ line) : contents (Text.lines line) = contents [line] := by
  by_cases hn : line = []
  · subst hn
    rfl
  · rw [Text.lines_of_break_not_mem h hn]

theorem contents_append_of_atBreak (h : AtBreak after) (before : List Char) :
    contents (Text.lines (before ++ after)) = contents (Text.lines before) ++ contents (Text.lines after) := by
  rcases h with rfl | ⟨rest, rfl⟩
  · rw [List.append_nil]
    exact (List.append_nil _).symm
  · obtain ⟨lines, line, rfl, hlines, hline⟩ := Text.exists_endsLine before
    have hl : contents [line ++ ['\n']] = contents [line] := by
      rw [contents_cons, significant_concat_break, contents_cons]
    rw [Text.lines_append_break, contents_append, List.append_assoc, contents_lines_append hlines,
      contents_lines_append hlines, Text.lines_single hline, hl, contents_line hline, contents_break]

/-- What goes on a line without being read changes nothing. -/
theorem contents_append_of_significant (hd : '\n' ∉ ds)
    (h : ∀ line, significant (line ++ ds) = significant line) (before : List Char) :
    contents (Text.lines (before ++ ds)) = contents (Text.lines before) := by
  obtain ⟨lines, line, rfl, hlines, hline⟩ := Text.exists_endsLine before
  have hn : '\n' ∉ line ++ ds := fun hm => (List.mem_append.1 hm).elim hline hd
  rw [List.append_assoc, contents_lines_append hlines, contents_lines_append hlines, contents_line hn,
    contents_line hline, contents_cons, h, contents_cons]

theorem contents_append_gap (hg : IsGap gap) (before : List Char) :
    contents (Text.lines (before ++ gap)) = contents (Text.lines before) :=
  contents_append_of_significant hg.break_not_mem
    (fun line => significant_append_right line hg.isBlank) before

theorem contents_gap_append (hg : IsGap gap) (after : List Char) :
    contents (Text.lines (gap ++ after)) = contents (Text.lines after) := by
  obtain ⟨line, rest, rfl, hline, hrest⟩ := Text.exists_atBreak after
  have hn : '\n' ∉ gap ++ line := fun hm => (List.mem_append.1 hm).elim hg.break_not_mem hline
  rw [← List.append_assoc, contents_append_of_atBreak hrest, contents_append_of_atBreak hrest,
    contents_line hn, contents_line hline, contents_cons, significant_append_left hg.isBlank, contents_cons]

theorem contents_of_isVoid (h : IsVoid line) : contents (Text.lines line) = [] := by
  rw [contents_line (Text.break_not_mem_of_isVoid h), contents_cons, if_pos (significant_of_isVoid h)]
  rfl

theorem contents_eq_of_edit (h : Layout.Edit cs ds) :
    contents (Text.lines cs) = contents (Text.lines ds) := by
  cases h with
  | indentation hb hg hg' =>
    rw [contents_lines_append hb, contents_lines_append hb, contents_gap_append hg, contents_gap_append hg']
  | trailing hg hg' ha =>
    rw [← List.append_assoc, ← List.append_assoc, contents_append_of_atBreak ha, contents_append_gap hg,
      contents_append_of_atBreak ha, contents_append_gap hg']
  | @comment before gap words after hg hne hw ha =>
    have hn : '\n' ∉ gap ++ '%' :: words := by
      rw [List.mem_append, List.mem_cons, not_or, not_or]
      exact ⟨hg.break_not_mem, by decide, hw⟩
    rw [← List.append_assoc, contents_append_of_atBreak ha, contents_append_of_atBreak ha,
      contents_append_of_significant hn fun line => significant_append_remark hg.isBlank hne line words]
  | line hb hl =>
    rw [contents_lines_append hb, contents_lines_append hb, contents_append_of_atBreak (.inr ⟨_, rfl⟩),
      contents_of_isVoid hl, contents_break, List.nil_append]
  | lastLine hl =>
    rw [contents_append_of_atBreak (.inr ⟨_, rfl⟩), contents_break, contents_of_isVoid hl, List.append_nil]
  | @lineEnd before after =>
    have hg : IsGap ['\r'] := ⟨List.forall_mem_singleton.2 rfl, by decide⟩
    rw [List.append_cons before '\r', contents_append_of_atBreak (.inr ⟨_, rfl⟩),
      contents_append_of_atBreak (.inr ⟨_, rfl⟩), contents_append_gap hg]

theorem contents_eq_of_same (h : Layout.Same cs ds) :
    contents (Text.lines cs) = contents (Text.lines ds) := by
  induction h with
  | rel _ _ h => exact contents_eq_of_edit h
  | refl => rfl
  | symm _ _ _ ih => exact ih.symm
  | trans _ _ _ _ _ ih ih' => exact ih.trans ih'

/-! ### Lines that say the same -/

theorem relaid_of_contents_eq_nil (h : contents ms = []) : Relaid [] ms := by
  induction ms with
  | nil => exact .nil
  | cons m ms ih =>
    rw [contents_cons] at h
    split at h
    · next hm => exact .right hm (ih h)
    · contradiction

theorem relaid_of_contents_eq_cons (hl : significant l ≠ []) (ih : ∀ ms, contents ls = contents ms → Relaid ls ms)
    (h : contents (l :: ls) = contents ms) : Relaid (l :: ls) ms := by
  rw [contents_cons, if_neg hl] at h
  induction ms with
  | nil => contradiction
  | cons m ms ihm =>
    rw [contents_cons] at h
    split at h
    · next hm => exact .right hm (ihm h)
    · obtain ⟨he, hrest⟩ := List.cons.inj h
      exact .both he (ih ms hrest)

theorem relaid_of_contents_eq (h : contents ls = contents ms) : Relaid ls ms := by
  induction ls generalizing ms with
  | nil => exact relaid_of_contents_eq_nil h.symm
  | cons l ls ih =>
    by_cases hl : significant l = []
    · rw [contents_cons, if_pos hl] at h
      exact .left hl (ih h)
    · exact relaid_of_contents_eq_cons hl (fun _ => ih) h

end Reading

/-! ### Readings that say the same -/

/-- Two marks that say the same about the same words, each in a text of its own. -/
structure Mark.Agrees (s t : String) (m n : Mark) : Prop where
  message_eq : m.message = n.message
  primary_eq : m.primary = n.primary
  slice : ∃ words, m.span.Cuts s words ∧ n.span.Cuts t words

/-- Two diagnostics that say the same, and mark the same words in the same order. -/
structure Diagnostic.Agrees (s t : String) (d e : Diagnostic) : Prop where
  severity_eq : d.severity = e.severity
  message_eq : d.message = e.message
  code_eq : d.code = e.code
  help_eq : d.help = e.help
  marks : List.Forall₂ (Mark.Agrees s t) d.marks e.marks

/-- Two texts with the same elements and the same warnings. -/
structure Document.Alike (s t : String) : Prop where
  elements_eq : (ofText s).elements = (ofText t).elements
  skipped_eq : (ofText s).skipped = (ofText t).skipped
  diagnostics : List.Forall₂ (Diagnostic.Agrees s t) (ofText s).diagnostics (ofText t).diagnostics

namespace Reading

variable {s t : String} {l m before before' after after' : List Char} {axis : Axis}

/-- The readings of two lines, each in a text of its own, record the same. -/
structure Agrees (s t : String) (r q : Reading) : Prop where
  element_eq : r.element? = q.element?
  diagnostic : List.Forall₂ (Diagnostic.Agrees s t) r.diagnostic?.toList q.diagnostic?.toList

theorem isFrame_congr (h : significant l = significant m) : IsFrame l ↔ IsFrame m := by
  rw [IsFrame, h, IsFrame]

theorem axisThrough_congr (h : significant l = significant m) (axis : Axis) :
    axisThrough axis l = axisThrough axis m := by
  rw [axisThrough, h, axisThrough]

/-- A warning about the same words in another place. -/
theorem agrees_warning (hs : s.toList = before ++ (l ++ after)) (ht : t.toList = before' ++ (m ++ after'))
    (h : significant l = significant m) {w : Mismatch}
    (hw : ∀ span, w = .number span → Command.IsMalformed span (significant l)) :
    (warning (Text.size before) l w).Agrees s t (warning (Text.size before') m w) := by
  have hl := covers_extent hs
  have hm := covers_extent ht
  rw [← h] at hm
  have hextent : ∃ words, (extent (Text.size before) l).Cuts s words ∧
      (extent (Text.size before') m).Cuts t words := ⟨_, hl.cuts, hm.cuts⟩
  cases w with
  | shape =>
    refine ⟨rfl, rfl, rfl, rfl, ?_⟩
    rw [marks_warning_shape, marks_warning_shape]
    exact .cons ⟨rfl, rfl, hextent⟩ (.cons ⟨rfl, rfl, hextent⟩ .nil)
  | number span =>
    obtain ⟨run, hrun, -⟩ := hw span rfl
    have hnumber : ∃ words, (span.shift (extent (Text.size before) l).start).Cuts s words ∧
        (span.shift (extent (Text.size before') m).start).Cuts t words :=
      ⟨_, (hl.shift hrun).cuts, (hm.shift hrun).cuts⟩
    exact ⟨rfl, rfl, rfl, rfl, .cons ⟨rfl, rfl, hnumber⟩ (.cons ⟨rfl, rfl, hextent⟩ .nil)⟩

theorem agrees_ofLine (hs : s.toList = before ++ (l ++ after)) (ht : t.toList = before' ++ (m ++ after'))
    (h : significant l = significant m) (axis : Axis) :
    Agrees s t (ofLine axis (Text.size before) l) (ofLine axis (Text.size before') m) := by
  by_cases hf : IsFrame l
  · obtain ⟨he, hd⟩ := unrecorded_of_isFrame hf axis (Text.size before)
    obtain ⟨he', hd'⟩ := unrecorded_of_isFrame ((isFrame_congr h).1 hf) axis (Text.size before')
    refine ⟨he.trans he'.symm, ?_⟩
    rw [hd, hd']
    exact .nil
  · rw [ofLine_of_not_isFrame hf, ofLine_of_not_isFrame (mt (isFrame_congr h).2 hf), ← h]
    cases hc : Command.ofLine axis (significant l) with
    | ok e => exact ⟨rfl, .nil⟩
    | error w =>
      have hw : ∀ span, w = .number span → Command.IsMalformed span (significant l) := fun span hw =>
        Command.isMalformed_of_ofLine (hw ▸ hc)
      exact ⟨rfl, .cons (agrees_warning hs ht h hw) .nil⟩

/-- A line of which nothing is read has no part in how the lines after it are read. -/
theorem ofLines_cons_of_significant (h : significant l = []) (axis : Axis) (offset : Nat)
    (ls : List (List Char)) :
    (ofLines axis offset (l :: ls)).filterMap element? =
        (ofLines axis (offset + Text.size l) ls).filterMap element? ∧
      (ofLines axis offset (l :: ls)).filterMap diagnostic? =
        (ofLines axis (offset + Text.size l) ls).filterMap diagnostic? := by
  have hb : ¬BoundsAxis l := by
    rw [BoundsAxis, h]
    decide
  obtain ⟨he, hd⟩ := unrecorded_of_isFrame (.inl h) axis offset
  rw [ofLines, axisAfter_ofLine, axisThrough_eq_self hb, List.filterMap_cons_none he,
    List.filterMap_cons_none hd]
  exact ⟨rfl, rfl⟩

/-- Lines that say the same record the same, wherever they stand. The axis that is open is the same on
both sides all the way. -/
theorem agrees_ofLines {ls ms : List (List Char)} (h : Relaid ls ms) (axis : Axis)
    (hs : s.toList = before ++ ls.flatten) (ht : t.toList = before' ++ ms.flatten) :
    (ofLines axis (Text.size before) ls).filterMap element? =
        (ofLines axis (Text.size before') ms).filterMap element? ∧
      List.Forall₂ (Diagnostic.Agrees s t) ((ofLines axis (Text.size before) ls).filterMap diagnostic?)
        ((ofLines axis (Text.size before') ms).filterMap diagnostic?) := by
  induction h generalizing axis before before' with
  | nil => exact ⟨rfl, .nil⟩
  | @both l m ls ms he _ ih =>
    rw [List.flatten_cons] at hs ht
    obtain ⟨hel, hdiag⟩ := agrees_ofLine hs ht he axis
    rw [← List.append_assoc] at hs ht
    obtain ⟨herest, hdrest⟩ := ih (axisThrough axis l) hs ht
    rw [Text.size_append, Text.size_append] at herest hdrest
    simp only [ofLines, axisAfter_ofLine, ← axisThrough_congr he, List.filterMap_eq_flatMap_toList,
      List.flatMap_cons] at herest hdrest ⊢
    exact ⟨by rw [hel, herest], List.rel_append hdiag hdrest⟩
  | @left l ls ms he _ ih =>
    obtain ⟨hel, hdiag⟩ := ofLines_cons_of_significant he axis (Text.size before) ls
    rw [List.flatten_cons, ← List.append_assoc] at hs
    rw [hel, hdiag, ← Text.size_append]
    exact ih axis hs ht
  | @right m ls ms he _ ih =>
    obtain ⟨hel, hdiag⟩ := ofLines_cons_of_significant he axis (Text.size before') ms
    rw [List.flatten_cons, ← List.append_assoc] at ht
    rw [hel, hdiag, ← Text.size_append]
    exact ih axis hs ht

end Reading

namespace Document

/-- A text is read by what is significant of its lines. -/
theorem alike_of_contents_eq {s t : String}
    (h : Reading.contents (Text.lines s.toList) = Reading.contents (Text.lines t.toList)) : Alike s t := by
  have hs : s.toList = [] ++ (Text.lines s.toList).flatten := (Text.flatten_lines _).symm
  have ht : t.toList = [] ++ (Text.lines t.toList).flatten := (Text.flatten_lines _).symm
  obtain ⟨he, hd⟩ := Reading.agrees_ofLines (Reading.relaid_of_contents_eq h) {} hs ht
  refine ⟨he, ?_, hd⟩
  rw [skipped_eq, skipped_eq]
  exact hd.length_eq

/-- Layout does not matter: other blanks around lines, comments behind a blank, blank lines and lines
with a comment only, and carriage returns before line feeds, in any number and in any order. -/
theorem layout_irrelevant (s : String) : (∀ t : String, Layout.Same s.toList t.toList → Alike s t) ∧
    Alike s (String.ofList (Text.withReturns s.toList)) := by
  have halike (t : String) (h : Layout.Same s.toList t.toList) : Alike s t :=
    alike_of_contents_eq (Reading.contents_eq_of_same h)
  refine ⟨halike, halike _ ?_⟩
  rw [String.toList_ofList]
  exact Text.same_withReturns [] s.toList

/-- The last line of this text ends with a backslash that escapes nothing, and not with a line feed. -/
def misread : String := "\\draw (1.2.3,0) -- (1,1);\n  foo\\"

def relaid : String := "% note\n\\draw (1.2.3,0) -- (1,1);\r\nfoo\\ % \\\n\t% end"

theorem same_relaid : Layout.Same misread.toList relaid.toList := by
  have hgap : Text.IsGap "  ".toList := ⟨by unfold Text.IsBlank; decide, by decide⟩
  have hblank : Text.IsGap [' '] := ⟨List.forall_mem_singleton.2 rfl, by decide⟩
  have htab : Text.IsGap ['\t'] := ⟨List.forall_mem_singleton.2 rfl, by decide⟩
  have hnote : Text.IsVoid "% note".toList := .inr ⟨[], " note".toList, .nil, by decide, rfl⟩
  have hend : Text.IsVoid "\t% end".toList := .inr ⟨['\t'], " end".toList, htab, by decide, rfl⟩
  have h₁ : Layout.Edit misread.toList "\\draw (1.2.3,0) -- (1,1);\r\n  foo\\".toList :=
    @Layout.Edit.lineEnd "\\draw (1.2.3,0) -- (1,1);".toList "  foo\\".toList
  have h₂ : Layout.Edit "\\draw (1.2.3,0) -- (1,1);\r\n  foo\\".toList
      "\\draw (1.2.3,0) -- (1,1);\r\nfoo\\".toList :=
    @Layout.Edit.indentation "\\draw (1.2.3,0) -- (1,1);\r\n".toList _ _ "foo\\".toList (.inr rfl) hgap .nil
  have h₃ : Layout.Edit "\\draw (1.2.3,0) -- (1,1);\r\nfoo\\".toList
      "\\draw (1.2.3,0) -- (1,1);\r\nfoo\\ % \\".toList :=
    @Layout.Edit.comment "\\draw (1.2.3,0) -- (1,1);\r\nfoo\\".toList _ " \\".toList [] hblank
      (List.cons_ne_nil _ _) (by decide) (.inl rfl)
  have h₄ : Layout.Edit "\\draw (1.2.3,0) -- (1,1);\r\nfoo\\ % \\".toList
      "% note\n\\draw (1.2.3,0) -- (1,1);\r\nfoo\\ % \\".toList :=
    @Layout.Edit.line [] _ _ (.inl rfl) hnote
  have h₅ : Layout.Edit "% note\n\\draw (1.2.3,0) -- (1,1);\r\nfoo\\ % \\".toList relaid.toList :=
    @Layout.Edit.lastLine _ _ hend
  exact (((Relation.EqvGen.rel _ _ h₁).trans _ _ _ (.rel _ _ h₂)).trans _ _ _
    ((Relation.EqvGen.rel _ _ h₃).trans _ _ _ (.rel _ _ h₄))).trans _ _ _ (.rel _ _ h₅)

/-- Both have two warnings, and a number that cannot be read. -/
theorem layout_irrelevant_relaid : Layout.Same misread.toList relaid.toList ∧
    Alike misread relaid ∧ (ofText relaid).diagnostics.map (fun d =>
      (d.code, d.marks.map fun m => (m.span.start, m.span.stop))) =
        [(some .malformedLiteral, [(14, 19), (7, 32)]), (some .unrecognized, [(34, 38), (34, 38)])] :=
  ⟨same_relaid, (layout_irrelevant misread).1 relaid same_relaid, by decide +kernel⟩

end Document

end Sketch
