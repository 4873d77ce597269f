import Sketch.Proofs.Number.Overflow
import Sketch.Proofs.Preview.Extent

/-!
Grids whose lines never end. A limit on the steps loses no other grid, whatever its corners are: where
one bound of the visible part is infinite, either there are too many lines or the steps stay where
they are.
-/

open Float.Model Float.Model.UnpackedFloat

namespace Sketch

namespace Number

variable {x y : Float} {s : Sign}

theorem unpack_pack_infinite (s : Sign) : (Float.Model.pack (.infinity s)).unpack = .infinity s := by
  cases s with
  | positive => exact unpack_pack_infinity
  | negative =>
    change UnpackedFloat.unpack .binary64 (packedInfinity .binary64 .negative) = _
    rfl

theorem unpack_sub (h : UnpackedFloat.sub .binary64 x.toModel.unpack y.toModel.unpack = .infinity s) :
    (x - y).toModel.unpack = .infinity s := by
  change (Float.Model.pack (UnpackedFloat.sub .binary64 x.toModel.unpack y.toModel.unpack)).unpack = _
  rw [h, unpack_pack_infinite]

/-- An infinite float stays where it is. -/
theorem unpack_add_one (h : x.toModel.unpack = .infinity s) :
    (x + 1).toModel.unpack = .infinity s := by
  change (Float.Model.pack (UnpackedFloat.add .binary64 x.toModel.unpack
    (1 : Float).toModel.unpack)).unpack = _
  rw [h]
  cases s with
  | positive => exact unpack_pack_infinite .positive
  | negative => exact unpack_pack_infinite .negative

theorem le_of_infinite (hx : x.toModel.unpack = .infinity s) (hy : y.toModel.unpack = .infinity s) :
    x ≤ y := by
  rw [le_iff_unpack, hx, hy]
  cases s with
  | positive => rfl
  | negative => rfl

/-- Where the bounds of an interval are. -/
theorem le_cases (h : x ≤ y) :
    (x.isFinite = true ∧ y.isFinite = true) ∨
      (∃ s, x.toModel.unpack = .infinity s ∧ y.toModel.unpack = .infinity s) ∨
      (x.toModel.unpack = .infinity .negative ∧ FiniteOr .positive y) ∨
      (x.isFinite = true ∧ y.toModel.unpack = .infinity .positive) := by
  rw [le_iff_unpack] at h
  change (x.toModel.unpack.isFinite = true ∧ y.toModel.unpack.isFinite = true) ∨ _ ∨
    (_ ∧ (y.toModel.unpack.isFinite = true ∨ _)) ∨ (x.toModel.unpack.isFinite = true ∧ _)
  generalize x.toModel.unpack = u at h
  generalize y.toModel.unpack = v at h
  cases u with
  | notANumber => contradiction
  | infinity s =>
    cases s with
    | positive =>
      cases v with
      | infinity t =>
        cases t with
        | positive => exact .inr (.inl ⟨.positive, rfl, rfl⟩)
        | negative => contradiction
      | notANumber | zero | finite => contradiction
    | negative =>
      cases v with
      | infinity t =>
        cases t with
        | positive => exact .inr (.inr (.inl ⟨rfl, .inr rfl⟩))
        | negative => exact .inr (.inl ⟨.negative, rfl, rfl⟩)
      | notANumber => contradiction
      | zero | finite => exact .inr (.inr (.inl ⟨rfl, .inl rfl⟩))
  | zero | finite =>
    cases v with
    | infinity t =>
      cases t with
      | positive => exact .inr (.inr (.inr ⟨rfl, rfl⟩))
      | negative => contradiction
    | notANumber => cases h
    | zero | finite => exact .inl ⟨rfl, rfl⟩

theorem le_of_lt (h : x < y) : x ≤ y := by
  rw [lt_iff_unpack, UnpackedFloat.lt, beq_iff_eq] at h
  rw [le_iff_unpack, UnpackedFloat.le, h]
  rfl

theorem atLeast_larger_zero (x : Float) : AtLeast 0 (larger x 0) := by
  unfold larger
  split
  · next h =>
    have hlt : (0 : Float) < x := h.resolve_left (by decide)
    rcases le_cases (le_of_lt hlt) with ⟨h0, hx⟩ | ⟨s, h0, -⟩ | ⟨h0, -⟩ | ⟨-, hx⟩
    · rw [Number.lt_iff h0 hx, value_zero.2] at hlt
      exact .inl ⟨hx, hlt.le⟩
    · exact absurd value_zero.1 (not_isFinite_of_infinite h0)
    · exact absurd value_zero.1 (not_isFinite_of_infinite h0)
    · exact .inr hx
  · exact .inl ⟨value_zero.1, value_zero.2.ge⟩

end Number

open Number

namespace Preview

variable {v : Viewport} {l : Limits} {s : Scene} {p q : Point} {e : Extent} {low high x : Float}
  {limit : ℕ}

/-! ### Counting towards infinity -/

/-- An interval with a bound of its own at infinity has too many whole numbers. -/
theorem atLeast_wholeNumbers_of_infinite {t : ℚ}
    (h : UnpackedFloat.sub .binary64 (floor high).toModel.unpack (ceil low).toModel.unpack =
      .infinity .positive) : AtLeast t (wholeNumbers low high) := by
  have hone : (floor high - ceil low + 1).toModel.unpack = .infinity .positive :=
    unpack_add_one (unpack_sub h)
  exact AtLeast.larger_zero (.inr hone)

theorem atLeast_wholeNumbers_of_negative {t : ℚ} (hl : low.toModel.unpack = .infinity .negative)
    (hh : FiniteOr .positive high) : AtLeast t (wholeNumbers low high) := by
  apply atLeast_wholeNumbers_of_infinite
  rw [ceil, toWhole_of_infinite hl, hl]
  rcases hh.floor with hh | hh
  · obtain ⟨b, -, hb, -⟩ := exists_unpack_eq hh
    rw [hb, Binary.unpacked]
    split
    · rfl
    · rfl
  · rw [hh]
    rfl

theorem atLeast_wholeNumbers_of_positive {t : ℚ} (hl : low.isFinite = true)
    (hh : high.toModel.unpack = .infinity .positive) : AtLeast t (wholeNumbers low high) := by
  apply atLeast_wholeNumbers_of_infinite
  obtain ⟨b, -, hb, -⟩ := exists_unpack_eq (value_ceil hl).1
  rw [floor, toWhole_of_infinite hh, hh, hb, Binary.unpacked]
  split
  · rfl
  · rfl

/-! ### Steps without an end -/

theorem unitSteps?_eq_none_of_infinite {sign : Sign} (hx : x.toModel.unpack = .infinity sign)
    (hh : high.toModel.unpack = .infinity sign) (limit : ℕ) : unitSteps? high limit x = none := by
  induction limit generalizing x with
  | zero => exact unitSteps?_zero (le_of_infinite hx hh)
  | succ limit ih =>
    rw [unitSteps?_succ (le_of_infinite hx hh), ih (unpack_add_one hx)]
    rfl

/-- If there are few whole numbers, then steps that outrun the limit never end. -/
theorem unitSteps?_eq_none_of_few (hle : low ≤ high)
    (hfew : ¬AtLeast ((2001 : ℤ) : ℚ) (wholeNumbers low high))
    (h : unitSteps? high maxGridLines (ceil low) = none) (limit : ℕ) :
    unitSteps? high limit (ceil low) = none := by
  rcases le_cases hle with ⟨hl, hh⟩ | ⟨sign, hl, hh⟩ | ⟨hl, hh⟩ | ⟨hl, hh⟩
  · refine unitSteps?_eq_none_of_length_le (stands_ceil hl) hh ?_ h limit
    by_contra hmany
    rw [length_range, maxGridLines] at hmany
    exact hfew (atLeast_wholeNumbers hl hh (by norm_num) (by omega))
  · apply unitSteps?_eq_none_of_infinite _ hh
    rwa [ceil, toWhole_of_infinite hl]
  · exact absurd (atLeast_wholeNumbers_of_negative hl hh) hfew
  · exact absurd (atLeast_wholeNumbers_of_positive hl hh) hfew

/-- Something is visible, and not too much to be drawn, but the steps across it never end, however
many are made. -/
structure Extent.IsEndless (e : Extent) : Prop where
  proper : e.IsProper
  few : ¬.ofNat maxGridLines < e.lineCount
  steps : (∀ limit, unitSteps? e.right limit (ceil e.left) = none) ∨
    ∀ limit, unitSteps? e.top limit (ceil e.bottom) = none

theorem atLeast_zero_wholeNumbers (low high : Float) :
    AtLeast ((0 : ℤ) : ℚ) (wholeNumbers low high) := by
  rw [Int.cast_zero]
  exact atLeast_larger_zero _

theorem Extent.not_atLeast_columns (h : ¬.ofNat maxGridLines < e.lineCount) :
    ¬AtLeast ((2001 : ℤ) : ℚ) (wholeNumbers e.left e.right) :=
  fun hc => h (lt_lineCount le_rfl hc (atLeast_zero_wholeNumbers ..))

theorem Extent.not_atLeast_rows (h : ¬.ofNat maxGridLines < e.lineCount) :
    ¬AtLeast ((2001 : ℤ) : ℚ) (wholeNumbers e.bottom e.top) :=
  fun hr => h (lt_lineCount le_rfl (atLeast_zero_wholeNumbers ..) hr)

/-- There is no result exactly where the steps never end: no limit would suffice. -/
theorem gridLines?_eq_none_iff : gridLines? v p q = none ↔ (Extent.visible v p q).IsEndless := by
  unfold gridLines?
  dsimp only
  split
  · next h =>
    refine iff_of_false (Option.some_ne_none _) fun he => ?_
    rcases h with hp | hmany
    · exact hp he.proper
    · exact he.few hmany
  · next h =>
    obtain ⟨hp, hfew⟩ := not_or.1 h
    have hp := not_not.1 hp
    constructor
    · intro hnone
      refine ⟨hp, hfew, ?_⟩
      cases hxs : unitSteps? (Extent.visible v p q).right maxGridLines
          (ceil (Extent.visible v p q).left) with
      | none =>
        left
        exact unitSteps?_eq_none_of_few hp.1 (Extent.not_atLeast_columns hfew) hxs
      | some xs =>
        right
        apply unitSteps?_eq_none_of_few hp.2 (Extent.not_atLeast_rows hfew)
        cases hys : unitSteps? (Extent.visible v p q).top maxGridLines
            (ceil (Extent.visible v p q).bottom) with
        | none => rfl
        | some ys =>
          rw [hxs, hys] at hnone
          contradiction
    · intro he
      rcases he.steps with hxs | hys
      · rw [hxs]
        rfl
      · rw [hys]
        cases unitSteps? (Extent.visible v p q).right maxGridLines
            (ceil (Extent.visible v p q).left) with
        | none => rfl
        | some xs => rfl

/-! ### Elements without an end -/

theorem ofElement?_eq_none_iff {e : Element} : ofElement? v e = none ↔
    ∃ p q, e.figure = .shape (.grid p q) ∧ (Extent.visible v p q).IsEndless := by
  obtain ⟨figure, style⟩ := e
  cases figure with
  | shape shape =>
    cases shape with
    | grid p q =>
      refine gridLines?_eq_none_iff.trans ⟨fun h => ⟨p, q, rfl, h⟩, ?_⟩
      rintro ⟨p, q, ⟨⟩, h⟩
      exact h
    | circle | rectangle | line => simp [ofElement?, ofShape?]
  | label | plot => simp [ofElement?]

end Preview

end Sketch
