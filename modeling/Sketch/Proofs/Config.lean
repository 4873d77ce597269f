import Sketch.Config
import Sketch.Proofs.Failure
import Sketch.Proofs.Number.Rounds

/-!
Settings value by value. The check accepts finite lengths above zero, a number of samples within its
bounds, and a background that can be read, and it turns down everything else, such as what is not a
number.
-/

namespace Sketch

variable {c : Config} {v : Viewport} {l : Limits}

/-- A finite float above zero. -/
def Number.IsLength (x : Float) : Prop := x.isFinite = true ∧ 0 < x

instance : DecidablePred Number.IsLength := fun _ => inferInstanceAs (Decidable (_ ∧ _))

/-- What is not a number is not above zero, though it is not below or at zero either. -/
theorem Number.isLength_iff {x : Float} : IsLength x ↔ ¬(¬x.isFinite = true ∨ x ≤ 0) := by
  rw [not_or, not_not, IsLength]
  refine and_congr_right fun hx => ?_
  rw [Number.lt_iff value_zero.1 hx, Number.le_iff hx value_zero.1, not_le]

theorem Number.IsLength.value_pos {x : Float} (h : IsLength x) : x.isFinite = true ∧ 0 < value x := by
  obtain ⟨hx, h0⟩ := h
  rw [Number.lt_iff value_zero.1 hx, value_zero.2] at h0
  exact ⟨hx, h0⟩

theorem ViewportSettings.checkLength_eq_ok_iff {name : String} {x : Float} :
    checkLength name x = .ok () ↔ Number.IsLength x := by
  unfold checkLength
  split
  · next h => exact iff_of_true rfl h
  · next h => exact iff_of_false nofun h

theorem ViewportSettings.toViewport_eq_ok_iff {s : ViewportSettings} : s.toViewport = .ok v ↔
    (Number.IsLength s.width ∧ Number.IsLength s.height ∧ Number.IsLength s.scale) ∧
      v = .centered ⟨s.width, s.height⟩ s.scale := by
  constructor
  · intro h
    obtain ⟨⟨⟩, hw, h⟩ := bind_eq_ok_iff.1 h
    obtain ⟨⟨⟩, hh, h⟩ := bind_eq_ok_iff.1 h
    obtain ⟨⟨⟩, hs, h⟩ := bind_eq_ok_iff.1 h
    exact ⟨⟨checkLength_eq_ok_iff.1 hw, checkLength_eq_ok_iff.1 hh, checkLength_eq_ok_iff.1 hs⟩,
      (Except.ok.inj h).symm⟩
  · rintro ⟨⟨hw, hh, hs⟩, rfl⟩
    refine bind_eq_ok_iff.2 ⟨(), checkLength_eq_ok_iff.2 hw, ?_⟩
    refine bind_eq_ok_iff.2 ⟨(), checkLength_eq_ok_iff.2 hh, ?_⟩
    exact bind_eq_ok_iff.2 ⟨(), checkLength_eq_ok_iff.2 hs, rfl⟩

theorem Limits.validate_eq_ok_iff : l.validate = .ok () ↔
    (2 ≤ l.maxSamples ∧ l.maxSamples ≤ samplesCeiling) ∧ Number.IsLength l.clamp := by
  rw [Number.isLength_iff]
  unfold validate
  split
  · next h =>
    refine iff_of_false nofun ?_
    rintro ⟨⟨hlow, hhigh⟩, -⟩
    rcases h with h | h
    · exact UInt32.not_lt.2 hlow h
    · exact UInt32.not_lt.2 hhigh h
  · next hsamples =>
    obtain ⟨hlow, hhigh⟩ := not_or.1 hsamples
    split
    · next h => exact iff_of_false nofun fun hvalid => hvalid.2 h
    · next h => exact iff_of_true rfl ⟨⟨UInt32.not_lt.1 hlow, UInt32.not_lt.1 hhigh⟩, h⟩

theorem Color.ofCss_eq_ok_iff [Readers] {text : String} {color : Color} :
    ofCss text = .ok color ↔ Readers.color? text = some color := by
  unfold ofCss
  cases Readers.color? text with
  | some => exact ⟨fun h => congrArg _ (Except.ok.inj h), fun h => congrArg _ (Option.some.inj h)⟩
  | none => exact iff_of_false nofun nofun

theorem PreviewSettings.color_eq_ok_iff [Readers] {s : PreviewSettings} {color : Color} :
    s.color = .ok color ↔ Readers.color? s.background = some color :=
  mapError_eq_ok_iff.trans Color.ofCss_eq_ok_iff

namespace Config

theorem limits_eq_ok_iff : c.limits = .ok l ↔ c.sampling.validate = .ok () ∧ c.sampling = l := by
  constructor
  · intro h
    obtain ⟨⟨⟩, hvalid, h⟩ := bind_eq_ok_iff.1 h
    exact ⟨mapError_eq_ok_iff.1 hvalid, Except.ok.inj h⟩
  · rintro ⟨hvalid, rfl⟩
    exact bind_eq_ok_iff.2 ⟨(), mapError_eq_ok_iff.2 hvalid, rfl⟩

variable [Readers]

/-- Settings all of whose values lie where they should. -/
structure IsValid (c : Config) : Prop where
  width : Number.IsLength c.viewport.width
  height : Number.IsLength c.viewport.height
  scale : Number.IsLength c.viewport.scale
  samples : 2 ≤ c.sampling.maxSamples ∧ c.sampling.maxSamples ≤ Limits.samplesCeiling
  clamp : Number.IsLength c.sampling.clamp
  background : ∃ color, Readers.color? c.preview.background = some color

theorem validate_eq_ok_iff : c.validate = .ok () ↔
    (∃ v, c.viewport.toViewport = .ok v) ∧ (∃ l, c.limits = .ok l) ∧
      ∃ color, c.preview.color = .ok color := by
  constructor
  · intro h
    obtain ⟨v, hv, h⟩ := bind_eq_ok_iff.1 h
    obtain ⟨l, hl, h⟩ := bind_eq_ok_iff.1 h
    obtain ⟨color, hcolor, -⟩ := bind_eq_ok_iff.1 h
    exact ⟨⟨v, hv⟩, ⟨l, hl⟩, color, hcolor⟩
  · rintro ⟨⟨v, hv⟩, ⟨l, hl⟩, color, hcolor⟩
    refine bind_eq_ok_iff.2 ⟨v, hv, ?_⟩
    refine bind_eq_ok_iff.2 ⟨l, hl, ?_⟩
    exact bind_eq_ok_iff.2 ⟨color, hcolor, rfl⟩

theorem validate_eq_ok_iff_isValid : c.validate = .ok () ↔ c.IsValid := by
  rw [validate_eq_ok_iff]
  constructor
  · rintro ⟨⟨v, hv⟩, ⟨l, hl⟩, color, hcolor⟩
    obtain ⟨⟨hw, hh, hs⟩, -⟩ := ViewportSettings.toViewport_eq_ok_iff.1 hv
    obtain ⟨hsamples, hclamp⟩ := Limits.validate_eq_ok_iff.1 (limits_eq_ok_iff.1 hl).1
    exact ⟨hw, hh, hs, hsamples, hclamp, color, PreviewSettings.color_eq_ok_iff.1 hcolor⟩
  · intro h
    obtain ⟨color, hcolor⟩ := h.background
    refine ⟨⟨_, ViewportSettings.toViewport_eq_ok_iff.2 ⟨⟨h.width, h.height, h.scale⟩, rfl⟩⟩, ?_, ?_⟩
    · exact ⟨_, limits_eq_ok_iff.2 ⟨Limits.validate_eq_ok_iff.2 ⟨h.samples, h.clamp⟩, rfl⟩⟩
    · exact ⟨color, PreviewSettings.color_eq_ok_iff.2 hcolor⟩

/-- The defaults pass the check, whoever reads the background. -/
theorem isValid_default [Readers.Lawful] : IsValid {} where
  width := by decide +kernel
  height := by decide +kernel
  scale := by decide +kernel
  samples := by decide
  clamp := by decide +kernel
  background := ⟨.white, Readers.Lawful.color?_css .white⟩

end Config

end Sketch
