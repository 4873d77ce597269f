import Sketch.Proofs.Code.Document

/-!
Lines with a drawing command on them. Such a line is an element or a warning, unless it opens the
picture or an axis block: what stands behind the opening is passed over without a word.
-/

namespace Sketch

namespace Reading

/-- The names of the commands that draw. -/
def drawingWords : List String := ["\\draw", "\\node", "\\addplot"]

/-- Outside of comments, the line has the name of a command that draws. -/
def Draws (line : List Char) : Prop := ∃ word ∈ drawingWords, word.toList <:+: stripComment false line

/-- The line starts with what opens the picture or an axis block. -/
def Opens (line : List Char) : Prop :=
  Command.pictureBegin.toList <+: significant line ∨ Command.axisBegin.toList <+: significant line

instance (line : List Char) : Decidable (Draws line) :=
  inferInstanceAs (Decidable (∃ word ∈ drawingWords, _))

instance (line : List Char) : Decidable (Opens line) := inferInstanceAs (Decidable (_ ∨ _))

variable {axis : Axis} {offset i : Nat} {l : List Char} {ls : List (List Char)}

theorem exists_getElem?_ofLines (h : ls[i]? = some l) (axis : Axis) (offset : Nat) :
    ∃ (a : Axis) (o : Nat), (ofLines axis offset ls)[i]? = some (ofLine a o l) := by
  induction ls generalizing axis offset i with
  | nil => contradiction
  | cons k ls ih =>
    cases i with
    | zero =>
      cases h
      exact ⟨axis, offset, rfl⟩
    | succ i => exact ih h _ _

theorem Draws.exists_infix_significant (h : Draws l) :
    ∃ word ∈ drawingWords, word.toList <:+: significant l := by
  obtain ⟨word, hm, hi⟩ := h
  have hword : ∀ word ∈ drawingWords, word.toList ≠ [] ∧ ∀ c ∈ word.toList, Text.isBlank c = false := by
    decide
  obtain ⟨hn, hw⟩ := hword word hm
  exact ⟨word, hm, (Text.infix_trim_iff hn hw).2 hi⟩

/-- The other lines that frame the picture have no room for a command. -/
theorem Draws.isFrame_iff (h : Draws l) : IsFrame l ↔ Opens l := by
  obtain ⟨word, hm, hi⟩ := h.exists_infix_significant
  have hnone : ∀ word ∈ drawingWords, ¬word.toList <:+: [] ∧
      ¬word.toList <:+: Command.pictureEnd.toList ∧ ¬word.toList <:+: Command.axisEnd.toList := by
    decide
  obtain ⟨hnil, hpicture, haxis⟩ := hnone word hm
  constructor
  · rintro (hs | hs | hs | hs | hs)
    · exact absurd (hs ▸ hi) hnil
    · exact .inl hs
    · exact absurd (hs ▸ hi) hpicture
    · exact absurd (hs ▸ hi) haxis
    · exact .inr hs
  · rintro (hs | hs)
    · exact .inr (.inl hs)
    · exact .inr (.inr (.inr (.inr hs)))

end Reading

namespace Document

/-- The element of the line with this number, if there is one. -/
def elementsAt (d : Document) (i : Nat) : List Element := (d.readings[i]?.bind Reading.element?).toList

/-- The warning about the line with this number, if there is one. -/
def diagnosticsAt (d : Document) (i : Nat) : List Diagnostic :=
  (d.readings[i]?.bind Reading.diagnostic?).toList

theorem exists_readings_getElem? {text : String} {i : Nat} {l : List Char}
    (h : (Text.lines text.toList)[i]? = some l) :
    ∃ (a : Axis) (o : Nat), (ofText text).readings[i]? = some (Reading.ofLine a o l) :=
  Reading.exists_getElem?_ofLines h {} 0

/-- A line with a drawing command on it is one element or one warning and not both, exactly if it
does not open the picture or an axis block. If it does, it is neither. -/
theorem recorded_iff (text : String) (i : Nat) (l : List Char)
    (hl : (Text.lines text.toList)[i]? = some l) (hd : Reading.Draws l) :
    (((∃ e, (ofText text).elementsAt i = [e] ∧ (ofText text).diagnosticsAt i = []) ∨
        ∃ d, (ofText text).elementsAt i = [] ∧ (ofText text).diagnosticsAt i = [d] ∧
          d.severity = .warning) ↔ ¬Reading.Opens l) ∧
      (Reading.Opens l → (ofText text).elementsAt i = [] ∧ (ofText text).diagnosticsAt i = []) := by
  obtain ⟨a, o, hr⟩ := exists_readings_getElem? hl
  have hopens : Reading.Opens l →
      (ofText text).elementsAt i = [] ∧ (ofText text).diagnosticsAt i = [] := by
    intro ho
    obtain ⟨he, hw⟩ := Reading.unrecorded_of_isFrame (hd.isFrame_iff.2 ho) a o
    rw [elementsAt, diagnosticsAt, hr]
    exact ⟨congrArg Option.toList he, congrArg Option.toList hw⟩
  refine ⟨⟨fun h ho => ?_, fun ho => ?_⟩, hopens⟩
  · obtain ⟨he, hw⟩ := hopens ho
    rcases h with ⟨e, h, -⟩ | ⟨d, -, h, -⟩
    · exact List.cons_ne_nil e [] (h.symm.trans he)
    · exact List.cons_ne_nil d [] (h.symm.trans hw)
  · rw [elementsAt, diagnosticsAt, hr, Reading.ofLine_of_not_isFrame fun hf => ho (hd.isFrame_iff.1 hf)]
    cases Command.ofLine a (Reading.significant l) with
    | ok e => exact .inl ⟨e, rfl, rfl⟩
    | error m => exact .inr ⟨_, rfl, rfl, by cases m <;> rfl⟩

/-- A picture with a line in it, and a comment that does not count. -/
def spacious : String :=
  "\\begin\x7btikzpicture\x7d\n  \\draw (0,0) -- (1,1); % \\node\n\\end\x7btikzpicture\x7d"

theorem recorded_spacious : ∃ l, (Text.lines spacious.toList)[1]? = some l ∧ Reading.Draws l ∧
    ¬Reading.Opens l ∧
    ((∃ e, (ofText spacious).elementsAt 1 = [e] ∧ (ofText spacious).diagnosticsAt 1 = []) ∨
      ∃ d, (ofText spacious).elementsAt 1 = [] ∧ (ofText spacious).diagnosticsAt 1 = [d] ∧
        d.severity = .warning) := by
  let l := "  \\draw (0,0) -- (1,1); % \\node\n".toList
  have hl : (Text.lines spacious.toList)[1]? = some l := rfl
  have hd : Reading.Draws l := by decide
  have ho : ¬Reading.Opens l := by decide
  exact ⟨l, hl, hd, ho, (recorded_iff spacious 1 l hl hd).1.2 ho⟩

/-- The same picture, with its line next to the opening. -/
def crowded : String :=
  "\\begin\x7btikzpicture\x7d \\draw (0,0) -- (1,1);\n\\end\x7btikzpicture\x7d"

/-- This line is lost: nothing is found in the text, and no warning says so. -/
theorem not_recorded_crowded : ∃ l, (Text.lines crowded.toList)[0]? = some l ∧ Reading.Draws l ∧
    (ofText crowded).elements = [] ∧ (ofText crowded).diagnostics = [] :=
  ⟨_, rfl, by decide, rfl, rfl⟩

end Document

end Sketch
