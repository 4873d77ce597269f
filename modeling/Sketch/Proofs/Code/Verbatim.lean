import Sketch.Proofs.Code.Acceptance
import Sketch.Proofs.Code.Diagnostic
import Sketch.Proofs.Text.Escape

/-!
The labels that are found in a text. What stands between the braces of a label is balanced and outside
of comments, so it is the content of the label as it stands, but for its carriage returns.
-/

namespace Sketch

namespace Command

open Braces (endsEscaped endsEscaped_append endsEscaped_of_not_mem)

/-! ### No part of a command ends inside an escape -/

theorem Gap.endsEscaped_eq (g : Gap) : endsEscaped g.text = false :=
  Braces.endsEscaped_of_isBlank fun c hc => Text.isBlank_of_isSpacing (g.isSpacing c hc)

theorem Numeral.endsEscaped_eq (n : Numeral) : endsEscaped n.text = false := by
  refine endsEscaped_of_not_mem fun hb => ?_
  have hn := n.isRun.isNumberChar_of_mem _ hb
  contradiction

theorem Group.endsEscaped_eq {close : Char} (g : Group close) : endsEscaped g.inner = false :=
  g.reaches.isOutside.endsEscaped_eq

theorem Coordinates.endsEscaped_eq (k : Coordinates) : endsEscaped k.text = false := by
  rw [text, Braces.endsEscaped_cons (by decide), endsEscaped_append k.beforeX.endsEscaped_eq,
    endsEscaped_append k.x.endsEscaped_eq, endsEscaped_append k.afterX.endsEscaped_eq,
    Braces.endsEscaped_cons (by decide), endsEscaped_append k.beforeY.endsEscaped_eq,
    endsEscaped_append k.y.endsEscaped_eq, endsEscaped_append k.afterY.endsEscaped_eq]
  rfl

theorem Front.endsEscaped_eq (f : Front) : endsEscaped f.text = false := by
  obtain ⟨lead, group, trail⟩ := f
  rw [text, endsEscaped_append lead.endsEscaped_eq]
  cases group with
  | none => exact trail.endsEscaped_eq
  | some g =>
    have hg : endsEscaped ('[' :: (g.inner ++ [']'])) = false := by
      rw [Braces.endsEscaped_cons (by decide), endsEscaped_append g.endsEscaped_eq]
      rfl
    rw [endsEscaped_append hg, trail.endsEscaped_eq]

/-! ### The text of a label in its line -/

variable {front : Front} {after : Gap} {position : Coordinates} {gap : Gap} {content : Group '}'}
  {ending : Ending}

/-- A label stands in its braces with nothing before it that could escape it. -/
theorem exists_text_node_eq : ∃ before, endsEscaped before = false ∧
    (Sentence.node front after position gap content ending).text =
      before ++ (content.inner ++ '}' :: ending.text) := by
  refine ⟨"\\node".toList ++ (front.text ++ ("at".toList ++ (after.text ++ (position.text ++
    (gap.text ++ ['{']))))), ?_, ?_⟩
  · rw [endsEscaped_append (by decide), endsEscaped_append front.endsEscaped_eq,
      endsEscaped_append (by decide), endsEscaped_append after.endsEscaped_eq,
      endsEscaped_append position.endsEscaped_eq, endsEscaped_append gap.endsEscaped_eq]
    rfl
  · simp only [List.append_assoc, List.cons_append, List.nil_append]
    rfl

/-- Only the sentences of labels describe labels. -/
theorem exists_node_of_element {s : Sentence} {axis : Axis} {lab : Label} {style : Style}
    (h : s.element axis = ⟨.label lab, style⟩) :
    ∃ front after position gap content ending, s = .node front after position gap content ending := by
  cases s with
  | draw _ _ _ _ drawing _ => cases drawing <;> cases h
  | node front after position gap content ending => exact ⟨_, _, _, _, _, _, rfl⟩
  | addplot => cases h

end Command

namespace Label

/-- A balanced text of a line that no comment and no line feed interrupts. -/
theorem content_of_line {text line before inner after : List Char} {lab : Label}
    (hl : line ∈ Text.lines text) (h : Reading.significant line = before ++ (inner ++ '}' :: after))
    (he : Braces.endsEscaped before = false) (hb : Braces.Balanced 0 inner) (ht : lab.text = .ofList inner) :
    lab.content = .ofList (inner.map fun c => if c = '\r' then ' ' else c) := by
  have hp : '%' ∉ Braces.unescaped inner := by
    intro hm
    apply Reading.percent_not_mem_significant line
    rw [h, Braces.unescaped_append he]
    exact List.mem_append_right _ (Braces.unescaped_subset_append _ _ hm)
  have hn : '\n' ∉ inner := by
    rw [← List.append_assoc] at h
    have hn := Reading.break_not_mem_of_significant hl h
    exact fun hm => hn (List.mem_append_right _ hm)
  have hmap : inner.map Braces.unbreak = inner.map fun c => if c = '\r' then ' ' else c := by
    refine List.map_congr_left fun c hc => ?_
    have hc : c ≠ '\n' := fun h => hn (h ▸ hc)
    simp only [Braces.unbreak, hc, false_or]
  rw [content, ht, String.toList_ofList, Braces.escape, hb.escapeWithin_eq hp, hmap]

end Label

namespace Document

open Command (Sentence)

/-- A line that is read as a label is a sentence, and in whatever way it is one, the content of the label
is the text between its braces, with spaces for carriage returns. -/
theorem content_verbatim {text : String} {i : Nat} {l : List Char} {lab : Label} {style : Style}
    (hl : (Text.lines text.toList)[i]? = some l)
    (hr : (ofText text).readings[i]? = some (.element ⟨.label lab, style⟩)) :
    Reading.significant l <:+: l ∧
      (∃ front after position gap content ending,
        (Sentence.node front after position gap content ending).text = Reading.significant l) ∧
      ∀ front after position gap content ending,
        (Sentence.node front after position gap content ending).text = Reading.significant l →
          lab.content = .ofList (content.inner.map fun c => if c = '\r' then ' ' else c) := by
  obtain ⟨axis, offset, hreading⟩ := exists_readings_getElem? hl
  have hline : Command.ofLine axis (Reading.significant l) = .ok ⟨.label lab, style⟩ :=
    Reading.command_of_element (Option.some.inj (hreading.symm.trans hr))
  refine ⟨?_, ?_, fun front after position gap content ending htext => ?_⟩
  · obtain ⟨lead, rest, h, -⟩ := Reading.exists_eq_append_significant l
    exact ⟨lead, rest, by rw [List.append_assoc, ← h]⟩
  · obtain ⟨s, htext, he⟩ := Command.ofLine_eq_ok_iff.1 hline
    obtain ⟨front, after, position, gap, content, ending, rfl⟩ := Command.exists_node_of_element he
    exact ⟨front, after, position, gap, content, ending, htext⟩
  · have hs := (Sentence.node front after position gap content ending).ofLine_text axis
    rw [htext, hline] at hs
    cases hs
    obtain ⟨before, he, hb⟩ := Command.exists_text_node_eq
    exact Label.content_of_line (List.mem_of_getElem? hl) (htext.symm.trans hb) he content.reaches.balanced rfl

/-- A line with an escaped percent sign and a carriage return in its label, and a comment. -/
def annotated : String := "  \\node at (0,0) \x7b50\\%\rof \x7bit\x7d\x7d; % more\n"

theorem content_verbatim_annotated : ∃ lab style,
    (ofText annotated).readings[0]? = some (.element ⟨.label lab, style⟩) ∧
      lab.content = "50\\% of \x7bit\x7d" ∧
      ∃ front after position gap content ending,
        (Sentence.node front after position gap content ending).text =
          "\\node at (0,0) \x7b50\\%\rof \x7bit\x7d\x7d;".toList ∧
        lab.content = .ofList (content.inner.map fun c => if c = '\r' then ' ' else c) := by
  have hl : (Text.lines annotated.toList)[0]? = some annotated.toList := rfl
  have hr : (ofText annotated).readings[0]? =
    some (.element ⟨.label ⟨⟨0, 0⟩, "50\\%\rof \x7bit\x7d"⟩, {}⟩) := rfl
  obtain ⟨-, ⟨front, after, position, gap, content, ending, htext⟩, hall⟩ := content_verbatim hl hr
  exact ⟨_, _, hr, by decide +kernel, front, after, position, gap, content, ending, htext,
    hall front after position gap content ending htext⟩

end Document

end Sketch
