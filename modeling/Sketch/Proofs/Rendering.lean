import Sketch.Proofs.Config
import Sketch.Proofs.Preview.Account
import Sketch.Proofs.Preview.Endless
import Sketch.Rendering

/-!
Scenes drawn by settings. Settings are checked all at once as they are read, and one by one as they are
used. The two checks agree: valid settings suffice to draw every scene, and no others do.
-/

namespace Sketch

/-- In the viewport the scene has a grid whose lines never end. -/
def Scene.IsEndless (s : Scene) (v : Viewport) : Prop :=
  ∃ e ∈ s.elements, ∃ p q, e.figure = .shape (.grid p q) ∧ (Preview.Extent.visible v p q).IsEndless

variable {c : Config} {s : Scene} {v : Viewport} {l : Limits}

theorem Preview.ofScene?_eq_none_iff : ofScene? v l s = none ↔ s.IsEndless v := by
  rw [ofScene?_eq, Option.map_eq_none_iff, mapM_eq_none_iff]
  constructor
  · rintro ⟨e, he, h⟩
    exact ⟨e, (List.mem_filter.1 he).1, ofElement?_eq_none_iff.1 h⟩
  · rintro ⟨e, he, p, q, hfigure, h⟩
    have hplot : e.isPlot = false := by
      rw [Element.isPlot, Element.kind, hfigure]
      rfl
    exact ⟨e, List.mem_filter.2 ⟨he, by simp [hplot]⟩, ofElement?_eq_none_iff.2 ⟨p, q, hfigure, h⟩⟩

namespace Config

theorem preview_eq_ok_iff {preview? : Option Preview} : s.preview c = .ok preview? ↔
    ∃ v l, c.viewport.toViewport = .ok v ∧ c.limits = .ok l ∧ Preview.ofScene? v l s = preview? := by
  constructor
  · intro h
    obtain ⟨v, hv, h⟩ := bind_eq_ok_iff.1 h
    obtain ⟨l, hl, h⟩ := bind_eq_ok_iff.1 h
    exact ⟨v, l, mapError_eq_ok_iff.1 hv, mapError_eq_ok_iff.1 hl, Except.ok.inj h⟩
  · rintro ⟨v, l, hv, hl, rfl⟩
    refine bind_eq_ok_iff.2 ⟨v, mapError_eq_ok_iff.2 hv, ?_⟩
    exact bind_eq_ok_iff.2 ⟨l, mapError_eq_ok_iff.2 hl, rfl⟩

variable [Readers]

/-- By the settings previews can be painted, and for no scene do they stand in the way of a preview. There
is one for every scene without a grid whose lines never end. -/
structure Suffices (c : Config) : Prop where
  paints : ∃ paint, c.paint = .ok paint
  previews (s : Scene) : ∃ v preview?, c.viewport.toViewport = .ok v ∧ s.preview c = .ok preview? ∧
    (¬s.IsEndless v → ∃ preview, preview? = some preview)

theorem paint_eq_ok_iff : (∃ paint, c.paint = .ok paint) ↔ ∃ color, c.preview.color = .ok color := by
  constructor
  · rintro ⟨paint, h⟩
    obtain ⟨color, hcolor, -⟩ := bind_eq_ok_iff.1 h
    exact ⟨color, mapError_eq_ok_iff.1 hcolor⟩
  · rintro ⟨color, hcolor⟩
    exact ⟨_, bind_eq_ok_iff.2 ⟨color, mapError_eq_ok_iff.2 hcolor, rfl⟩⟩

/-- The check of the settings as they are read agrees with the checks of their uses. -/
theorem suffices_iff : c.Suffices ↔ c.validate = .ok () := by
  rw [validate_eq_ok_iff]
  constructor
  · intro h
    obtain ⟨v, preview?, hv, hpreview, -⟩ := h.previews {}
    obtain ⟨-, l, -, hl, -⟩ := preview_eq_ok_iff.1 hpreview
    exact ⟨⟨v, hv⟩, ⟨l, hl⟩, paint_eq_ok_iff.1 h.paints⟩
  · rintro ⟨⟨v, hv⟩, ⟨l, hl⟩, hcolor⟩
    refine ⟨paint_eq_ok_iff.2 hcolor, fun s => ?_⟩
    refine ⟨v, _, hv, preview_eq_ok_iff.2 ⟨v, l, hv, hl, rfl⟩, fun h => ?_⟩
    rw [← Option.isSome_iff_exists, ← Option.ne_none_iff_isSome]
    exact fun hn => h (Preview.ofScene?_eq_none_iff.1 hn)

end Config

end Sketch
