import Sketch.Proofs.Code.Figure
import Sketch.Proofs.Code.Locality
import Sketch.Proofs.Code.Style

/-!
The numbers of all elements in a text. Axes have finite bounds, and so every number is finite that is
read; those that are computed may not be.
-/

namespace Sketch

theorem Axis.isFinite_default : ({} : Axis).IsFinite := by decide

namespace Reading

variable {axis : Axis}

theorem isFinite_of_axis? {code : List Char} {a : Axis} (h : Command.axis? code = some a) :
    a.IsFinite := by
  unfold Command.axis? at h
  dsimp only at h
  split at h
  · next o ho =>
    obtain ⟨d, hd⟩ := Command.exists_of_readLine_eq ho
    have hb : o.IsBounded :=
      Command.Gives.bind (fun _ => .bind fun _ => Command.gives_options) _ _ _ hd
    obtain ⟨hmin, hmax⟩ := Options.isFinite_sampling hb Axis.isFinite_default
    cases h
    exact ⟨hmin, hmax⟩
  · contradiction

theorem isFinite_axisThrough (h : axis.IsFinite) (line : List Char) :
    (axisThrough axis line).IsFinite := by
  unfold axisThrough
  split
  · exact Axis.isFinite_default
  · cases ha : Command.axis? (significant line) with
    | none => exact h
    | some a => exact isFinite_of_axis? ha

/-- Every element is read from a line of its own, under an axis with finite bounds. -/
theorem exists_sublist_elements (h : axis.IsFinite) (offset : Nat) (ls : List (List Char)) :
    ∃ lines, List.Sublist lines ls ∧
      List.Forall₂ (fun l e => ∃ (a : Axis) (o : Nat), a.IsFinite ∧ ofLine a o l = .element e) lines
        ((ofLines axis offset ls).filterMap element?) := by
  induction ls generalizing axis offset with
  | nil => exact ⟨[], .slnil, .nil⟩
  | cons l ls ih =>
    have hnext := isFinite_axisThrough h l
    rw [← axisAfter_ofLine axis offset l] at hnext
    obtain ⟨lines, hsub, hall⟩ := ih hnext (offset + Text.size l)
    rw [ofLines, List.filterMap_cons]
    cases hr : ofLine axis offset l with
    | element e =>
      rw [hr] at hall
      exact ⟨l :: lines, hsub.cons_cons _, .cons ⟨axis, offset, h, hr⟩ hall⟩
    | nothing | axis | skipped =>
      rw [hr] at hall
      exact ⟨lines, hsub.cons _, hall⟩

end Reading

namespace Document

/-- Each element is read from a line of its own, in the order of the lines, and all numbers that are
read are finite. The extent of a rectangle is not if it is given by two corners whose difference is
too large for a float. The line width is not if the options end up with one that is too large in
millimeters; the options of a grid do not count. -/
theorem finite_iff (text : String) :
    ∃ lines, List.Sublist lines (Text.lines text.toList) ∧
      List.Forall₂ (fun l e => (∃ axis offset, Reading.ofLine axis offset l = .element e) ∧
          e.figure.IsPlaced ∧
          (e.figure.IsFinite ↔ ¬Command.SpansTooFar (Reading.significant l)) ∧
          (e.style.IsFinite ↔ e.isGrid = true ∨ ¬Command.StrokesTooWide (Reading.significant l)))
        lines (ofText text).elements := by
  obtain ⟨lines, hsub, hall⟩ :=
    Reading.exists_sublist_elements Axis.isFinite_default 0 (Text.lines text.toList)
  refine ⟨lines, hsub, hall.imp ?_⟩
  rintro l e ⟨a, o, ha, hr⟩
  have hc := Reading.command_of_element hr
  exact ⟨⟨a, o, hr⟩, Command.isPlaced_figure ha hc, Command.isFinite_figure_iff ha hc,
    Command.isFinite_style_iff hc⟩

/-- Two texts without any infinite number, and an element with one in either of them. -/
theorem not_finite_wide :
    (∃ e ∈ (ofText "\\draw[line width=1e308cm] (0,0) -- (1,1);").elements, ¬e.style.IsFinite) ∧
      ∃ e ∈ (ofText "\\draw (-1e308,0) rectangle (1e308,1);").elements, ¬e.figure.IsFinite := by
  decide +kernel

end Document

end Sketch
