import Sketch.Proofs.Code.Recognized
import Sketch.Proofs.Containment

/-!
Code that is made of code. Its text is kept byte for byte when code is made of it once more, unless
an expression ended in an escaped blank that was trimmed: its last backslash escapes the brace then.
-/

namespace Sketch.Document

/-- The scene that a text shows. -/
def shown (text : String) : Scene := (ofText text).applyTo {}

/-- The code of the scene that a text shows. -/
def canonical (text : String) : String := (shown text).code

variable {text : String}

theorem elements_shown (text : String) : (shown text).elements = (ofText text).elements :=
  elements_applyTo_empty _

theorem canonical_of_balanced (hs : (shown text).IsFinite)
    (h : ∀ e ∈ (ofText text).elements, ∀ p, e.figure = .plot p →
      Braces.Balanced 0 p.expression.toList) :
    (ofText (canonical text)).skipped = 0 ∧ canonical (canonical text) = canonical text := by
  have hw : ∀ e ∈ (shown text).elements, ∀ p, e.figure = .plot p → p.IsWellFormed := by
    intro e he p hp
    rw [elements_shown] at he
    have hc := isClean_of_mem_elements he hp
    exact ⟨hc.trim_eq, hc.break_not_mem, hc.percent_not_mem, h e he p hp⟩
  obtain ⟨he, hd⟩ := elements_ofText (Scene.yields_code hs hw)
  constructor
  · rw [canonical, skipped_eq, hd, List.length_nil]
  · apply Scene.code_eq_of_reread
    rw [elements_shown, canonical, he]

theorem balanced_of_skipped (hs : (shown text).IsFinite)
    (h : (ofText (canonical text)).skipped = 0) {e : Element} (he : e ∈ (ofText text).elements)
    {p : Plot} (hp : e.figure = .plot p) : Braces.Balanced 0 p.expression.toList := by
  have hc := isClean_of_mem_elements he hp
  obtain ⟨figure, style⟩ := e
  cases hp
  rw [← elements_shown] at he
  rw [← Reading.endsPlot_plotRest_iff hc.percent_not_mem]
  exact Scene.endsPlot_of_skipped_eq_zero hs h he (Reading.lines_plotRest hc.break_not_mem)

/-- Canonical code is a fixed point exactly if no expression in the text was left with a backslash
at its end that escapes nothing. -/
theorem canonical_iff (text : String) (h : ∀ e ∈ (ofText text).elements, e.IsFinite) :
    ((ofText (canonical text)).skipped = 0 ∧ canonical (canonical text) = canonical text) ↔
      ∀ e ∈ (ofText text).elements, ∀ p, e.figure = .plot p →
        Braces.endsEscaped p.expression.toList = false := by
  have hs : (shown text).IsFinite := by
    intro e he
    rw [elements_shown] at he
    exact h e he
  constructor
  · rintro ⟨hk, -⟩ e he p hp
    exact (balanced_of_skipped hs hk he hp).endsEscaped_eq
  · intro hc
    apply canonical_of_balanced hs
    intro e he p hp
    exact (isClean_of_mem_elements he hp).balanced (hc e he p hp)

/-- A text in an odd form, with a comment, an axis and a line that is not read. -/
def odd : String :=
  "\\draw ( 1 , -0.0 ) circle(3 cm ) ;\r\n\\node at(0,0)\x7b50\\% of\t\\x\\ \x7d;% note\n" ++
    "\\begin\x7baxis\x7d[domain=1:2]\n" ++
    "  \\addplot+ [samples=7]\x7b \\frac\x7bx\x7d\x7b2\x7d \x7d ;\njunk"

theorem canonical_odd : (∀ e ∈ (ofText odd).elements, e.IsFinite) ∧
    (∀ e ∈ (ofText odd).elements, ∀ p, e.figure = .plot p →
      Braces.endsEscaped p.expression.toList = false) ∧ (ofText odd).recognized = 3 ∧
    (ofText (canonical odd)).skipped = 0 ∧ canonical (canonical odd) = canonical odd := by
  have hs : ∀ e ∈ (ofText odd).elements, e.IsFinite := by decide +kernel
  have hc : ∀ e ∈ (ofText odd).elements, ∀ p, e.figure = .plot p →
      Braces.endsEscaped p.expression.toList = false := by decide +kernel
  obtain ⟨hk, hf⟩ := (canonical_iff odd hs).2 hc
  exact ⟨hs, hc, by decide +kernel, hk, hf⟩

/-- A plot whose expression ends in an escaped space. -/
def cut : String := "\\addplot \x7bx\\ \x7d;"

/-- This text is read as a plot, and its canonical code is not. -/
theorem not_canonical_cut : (∀ e ∈ (ofText cut).elements, e.IsFinite) ∧
    (ofText cut).recognized = 1 ∧ (ofText cut).skipped = 0 ∧
    (ofText (canonical cut)).recognized = 0 ∧ (ofText (canonical cut)).skipped = 1 ∧
    canonical (canonical cut) ≠ canonical cut := by
  decide +kernel

end Sketch.Document
