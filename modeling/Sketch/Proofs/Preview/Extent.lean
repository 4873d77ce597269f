import Sketch.Proofs.Config
import Sketch.Proofs.Preview.Steps

/-!
The visible part of a grid. The canvas may reach to infinity where the scale is tiny, but the corners
of a grid do not, so what is visible has finite bounds. Its lines are counted in floats, and the
count is right as far as it matters.
-/

open Float.Model Float.Model.UnpackedFloat

namespace Sketch

namespace Number

variable {x y : Float} {w : ℚ} {s : Sign}

/-! ### Infinite bounds -/

/-- A finite float or the infinite one of some sign. -/
def FiniteOr (s : Sign) (x : Float) : Prop :=
  x.isFinite = true ∨ x.toModel.unpack = .infinity s

theorem Rounds.finiteOr_negative (h : Rounds w x) (hw : w ≤ 0) : FiniteOr .negative x := by
  have hr : rounded w ≤ 0 := rounded_zero ▸ rounded_mono hw
  cases h with
  | finite hx _ => exact .inl hx
  | above _ hle => exact absurd (pastLargest_pos.trans_le (hle.trans hr)) (lt_irrefl 0)
  | below hx _ => exact .inr hx

theorem Rounds.finiteOr_positive (h : Rounds w x) (hw : 0 ≤ w) : FiniteOr .positive x := by
  have hr := rounded_nonneg hw
  cases h with
  | finite hx _ => exact .inl hx
  | above hx _ => exact .inr hx
  | below _ hle =>
    exact absurd (hr.trans hle) (not_le.2 (neg_lt_zero.2 pastLargest_pos))

theorem ofFloat?_of_infinite (h : x.toModel.unpack = .infinity s) : Binary.ofFloat? x = none := by
  cases hb : Binary.ofFloat? x with
  | none => rfl
  | some b =>
    rw [Binary.unpack_of_ofFloat? hb, Binary.unpacked] at h
    split at h
    · contradiction
    · contradiction

theorem toWhole_of_infinite {choose : Binary → ℕ} (h : x.toModel.unpack = .infinity s) :
    toWhole choose x = x := by
  simp only [toWhole, ofFloat?_of_infinite h]

theorem FiniteOr.floor (h : FiniteOr s x) : FiniteOr s (floor x) := by
  rcases h with hx | hx
  · exact .inl (value_floor hx).1
  · right
    rwa [Number.floor, toWhole_of_infinite hx]

theorem FiniteOr.ceil (h : FiniteOr s x) : FiniteOr s (ceil x) := by
  rcases h with hx | hx
  · exact .inl (value_ceil hx).1
  · right
    rwa [Number.ceil, toWhole_of_infinite hx]

theorem isFinite_larger (hx : x.isFinite = true) (hy : FiniteOr .negative y) :
    (larger x y).isFinite = true := by
  unfold larger
  split
  · exact hx
  · next h =>
    rcases hy with hy | hy
    · exact hy
    · exact absurd (.inr (lt_of_negative hx hy)) h

theorem isFinite_smaller (hx : x.isFinite = true) (hy : FiniteOr .positive y) :
    (smaller x y).isFinite = true := by
  unfold smaller
  split
  · exact hx
  · next h =>
    rcases hy with hy | hy
    · exact hy
    · exact absurd (.inr (lt_of_positive hx hy)) h

/-! ### Bounds from below -/

/-- A float that is infinite or not below some number. -/
def AtLeast (t : ℚ) (x : Float) : Prop :=
  x.isFinite = true ∧ t ≤ value x ∨ x.toModel.unpack = .infinity .positive

theorem Rounds.atLeast {n : ℤ} (h : Rounds w x) (hn : |n| ≤ 2 ^ 53) (hw : n ≤ w) :
    AtLeast n x := by
  have hle : (n : ℚ) ≤ rounded w := rounded_intCast hn ▸ rounded_mono hw
  cases h with
  | finite hx hv => exact .inl ⟨hx, hv ▸ hle⟩
  | above hx _ => exact .inr hx
  | below _ hlow =>
    have hlt := (abs_lt.1 (intCast_lt_pastLargest (hn.trans (by norm_num)))).1
    exact absurd (hle.trans hlow) (not_le.2 hlt)

theorem unpack_pack_infinity : (Float.Model.pack (.infinity .positive)).unpack =
    .infinity .positive := by
  change UnpackedFloat.unpack .binary64 (packedInfinity .binary64 .positive) = _
  rfl

theorem add_of_positive (h : UnpackedFloat.add .binary64 x.toModel.unpack y.toModel.unpack =
    .infinity .positive) : (x + y).toModel.unpack = .infinity .positive := by
  change (Float.Model.pack (UnpackedFloat.add .binary64 x.toModel.unpack y.toModel.unpack)).unpack = _
  rw [h, unpack_pack_infinity]

theorem AtLeast.add {t u : ℚ} {n : ℤ} (hx : AtLeast t x) (hy : AtLeast u y) (hn : |n| ≤ 2 ^ 53)
    (h : n ≤ t + u) : AtLeast n (x + y) := by
  rcases hx with ⟨hx, hxt⟩ | hx
  · rcases hy with ⟨hy, hyu⟩ | hy
    · exact (rounds_add hx hy).atLeast hn (by linarith)
    · obtain ⟨b, -, hb, -⟩ := exists_unpack_eq hx
      right
      apply add_of_positive
      rw [hb, hy, Binary.unpacked]
      split
      · rfl
      · rfl
  · right
    apply add_of_positive
    rcases hy with ⟨hy, -⟩ | hy
    · obtain ⟨b, -, hb, -⟩ := exists_unpack_eq hy
      rw [hb, hx, Binary.unpacked]
      split
      · rfl
      · rfl
    · rw [hx, hy]
      rfl

theorem value_two : (2 : Float).isFinite = true ∧ value 2 = 2 := by
  have h : Binary.ofFloat? 2 = some ⟨false, 2 ^ 52, -51⟩ := by decide +kernel
  obtain ⟨hf, hv⟩ := value_of_fields h
  exact ⟨hf, by rw [hv]; norm_num⟩

theorem AtLeast.lt {t : ℚ} (h : AtLeast t x) (hy : y.isFinite = true) (ht : value y < t) :
    y < x := by
  rcases h with ⟨hx, hxt⟩ | hx
  · exact (Number.lt_iff hy hx).2 (ht.trans_le hxt)
  · exact lt_of_positive hy hx

theorem AtLeast.larger_zero {t : ℚ} (h : AtLeast t x) : AtLeast t (larger x 0) := by
  unfold larger
  split
  · exact h
  · next hle =>
    obtain ⟨-, hle⟩ := not_or.1 hle
    rcases h with ⟨hx, hxt⟩ | hx
    · rw [Number.lt_iff value_zero.1 hx, value_zero.2, not_lt] at hle
      exact .inl ⟨value_zero.1, by rw [value_zero.2]; exact hxt.trans hle⟩
    · exact absurd (lt_of_positive value_zero.1 hx) hle

theorem Stands.larger_zero {n : ℤ} (h : Stands x n) (hn : 0 ≤ n) : Stands (larger x 0) n := by
  unfold larger
  split
  · exact h
  · next hle =>
    obtain ⟨-, hle⟩ := not_or.1 hle
    rw [Number.lt_iff value_zero.1 h.finite, value_zero.2, h.value_eq, not_lt] at hle
    have h0 : n = 0 := le_antisymm (by exact_mod_cast hle) hn
    exact ⟨value_zero.1, by rw [value_zero.2, h0, Int.cast_zero]⟩

/-! ### The canvas -/

/-- Half of a length is a length, and no longer. -/
theorem value_half (hx : x.isFinite = true) (h0 : 0 < value x) :
    (x / 2).isFinite = true ∧ 0 ≤ value (x / 2) ∧ value (x / 2) ≤ value x := by
  have hr := rounds_div hx value_two.1 (by rw [value_two.2]; norm_num)
  rw [value_two.2] at hr
  have habs : |value x / 2| ≤ |value x| := by
    rw [abs_of_pos h0, abs_of_pos (by positivity)]
    linarith
  obtain ⟨hf, hv⟩ := hr.isFinite_of_abs_le hx habs
  refine ⟨hf, ?_, ?_⟩
  · rw [hv]
    exact rounded_nonneg (by positivity)
  · rw [hv]
    calc rounded (value x / 2) ≤ rounded (value x) := rounded_mono (by linarith)
      _ = value x := rounded_value hx

section Canvas

variable {a b scale : Float}

/-- A lesser coordinate from a greater one, in units. -/
theorem finiteOr_negative_div (ha : a.isFinite = true) (hb : b.isFinite = true)
    (hs : scale.isFinite = true) (ha0 : 0 ≤ value a) (hab : value a ≤ value b)
    (hs0 : 0 < value scale) : FiniteOr .negative ((a - b) / scale) := by
  have habs : |value a - value b| ≤ |value b| := by
    rw [abs_of_nonpos (by linarith), abs_of_nonneg (by linarith)]
    linarith
  obtain ⟨hf, hv⟩ := (rounds_sub ha hb).isFinite_of_abs_le hb habs
  have hneg : value (a - b) ≤ 0 := by
    rw [hv, ← rounded_zero]
    exact rounded_mono (by linarith)
  exact (rounds_div hf hs hs0.ne').finiteOr_negative (div_nonpos_of_nonpos_of_nonneg hneg hs0.le)

theorem finiteOr_positive_div (ha : a.isFinite = true) (hb : b.isFinite = true)
    (hs : scale.isFinite = true) (hb0 : 0 ≤ value b) (hab : value b ≤ value a)
    (hs0 : 0 < value scale) : FiniteOr .positive ((a - b) / scale) := by
  have habs : |value a - value b| ≤ |value a| := by
    rw [abs_of_nonneg (by linarith), abs_of_nonneg (by linarith)]
    linarith
  obtain ⟨hf, hv⟩ := (rounds_sub ha hb).isFinite_of_abs_le ha habs
  have hpos : 0 ≤ value (a - b) := by
    rw [hv]
    exact rounded_nonneg (by linarith)
  exact (rounds_div hf hs hs0.ne').finiteOr_positive (div_nonneg hpos hs0.le)

end Canvas

end Number

open Number

/-- A viewport is made of positive lengths. -/
theorem ViewportSettings.exists_of_toViewport {s : ViewportSettings} {v : Viewport}
    (h : s.toViewport = .ok v) : v = .centered ⟨s.width, s.height⟩ s.scale ∧
      (s.width.isFinite = true ∧ 0 < value s.width) ∧
      (s.height.isFinite = true ∧ 0 < value s.height) ∧
      s.scale.isFinite = true ∧ 0 < value s.scale := by
  obtain ⟨⟨hw, hh, hs⟩, hv⟩ := toViewport_eq_ok_iff.1 h
  exact ⟨hv, hw.value_pos, hh.value_pos, hs.value_pos⟩

namespace Preview

variable {s : ViewportSettings} {v : Viewport} {p q : Point}

theorem finiteOr_xRange (h : s.toViewport = .ok v) :
    FiniteOr .negative v.xRange.1 ∧ FiniteOr .positive v.xRange.2 := by
  obtain ⟨rfl, ⟨hw, hw0⟩, -, hs, hs0⟩ := ViewportSettings.exists_of_toViewport h
  obtain ⟨hf, h0, hle⟩ := value_half hw hw0
  refine ⟨finiteOr_negative_div value_zero.1 hf hs value_zero.2.ge ?_ hs0,
    finiteOr_positive_div hw hf hs h0 hle hs0⟩
  rw [value_zero.2]
  exact h0

theorem finiteOr_yRange (h : s.toViewport = .ok v) :
    FiniteOr .negative v.yRange.1 ∧ FiniteOr .positive v.yRange.2 := by
  obtain ⟨rfl, -, ⟨hh, hh0⟩, hs, hs0⟩ := ViewportSettings.exists_of_toViewport h
  obtain ⟨hf, h0, hle⟩ := value_half hh hh0
  refine ⟨finiteOr_negative_div hf hh hs h0 hle hs0,
    finiteOr_positive_div hf value_zero.1 hs value_zero.2.ge ?_ hs0⟩
  rw [value_zero.2]
  exact h0

namespace Extent

/-- An extent with finite bounds. -/
structure IsFinite (e : Extent) : Prop where
  left : e.left.isFinite = true
  right : e.right.isFinite = true
  bottom : e.bottom.isFinite = true
  top : e.top.isFinite = true

theorem isFinite_visible (h : s.toViewport = .ok v) (hp : p.isFinite = true)
    (hq : q.isFinite = true) : (visible v p q).IsFinite := by
  obtain ⟨hpx, hpy⟩ := Bool.and_eq_true_iff.1 hp
  obtain ⟨hqx, hqy⟩ := Bool.and_eq_true_iff.1 hq
  obtain ⟨hleft, hright⟩ := finiteOr_xRange h
  obtain ⟨hbottom, htop⟩ := finiteOr_yRange h
  exact ⟨isFinite_larger (isFinite_smaller hpx (.inl hqx)) hleft.floor,
    isFinite_smaller (isFinite_larger hpx (.inl hqx)) hright.ceil,
    isFinite_larger (isFinite_smaller hpy (.inl hqy)) hbottom.floor,
    isFinite_smaller (isFinite_larger hpy (.inl hqy)) htop.ceil⟩

/-! ### Counting lines -/

/-- Something of the grid is visible. -/
def IsProper (e : Extent) : Prop := e.left ≤ e.right ∧ e.bottom ≤ e.top

instance (e : Extent) : Decidable e.IsProper := inferInstanceAs (Decidable (_ ∧ _))

/-- The whole numbers between two bounds, in order. -/
def wholes (low high : Float) : List ℤ := Int.range ⌈value low⌉ (⌊value high⌋ + 1)

/-- The whole coordinates of the vertical lines. -/
def columns (e : Extent) : List ℤ := if e.IsProper then wholes e.left e.right else []

/-- The whole coordinates of the horizontal lines. -/
def rows (e : Extent) : List ℤ := if e.IsProper then wholes e.bottom e.top else []

end Extent

section Count

variable {low high : Float} {n : ℤ}

theorem rounds_wholeNumbers (hl : low.isFinite = true) (hh : high.isFinite = true) :
    Rounds ((⌊value high⌋ - ⌈value low⌉ : ℤ) : ℚ) (floor high - ceil low) := by
  have hr := rounds_sub (value_floor hh).1 (value_ceil hl).1
  rw [(value_floor hh).2, (value_ceil hl).2] at hr
  exact_mod_cast hr

theorem atLeast_wholeNumbers (hl : low.isFinite = true) (hh : high.isFinite = true)
    (hn : |n| ≤ 2 ^ 52) (h : n ≤ ⌊value high⌋ + 1 - ⌈value low⌉) :
    AtLeast n (wholeNumbers low high) := by
  rw [abs_le] at hn
  have hdiff : AtLeast ((n - 1 : ℤ) : ℚ) (floor high - ceil low) := by
    apply (rounds_wholeNumbers hl hh).atLeast (abs_le.2 (by omega))
    exact_mod_cast (by omega : n - 1 ≤ ⌊value high⌋ - ⌈value low⌉)
  have hone : AtLeast ((1 : ℤ) : ℚ) 1 := .inl ⟨value_one.1, by rw [value_one.2]; norm_num⟩
  apply AtLeast.larger_zero
  apply hdiff.add hone (abs_le.2 (by omega))
  rw [← Int.cast_add]
  exact_mod_cast (by omega : n ≤ n - 1 + 1)

theorem stands_wholeNumbers (hl : low.isFinite = true) (hh : high.isFinite = true)
    (h0 : 0 ≤ ⌊value high⌋ + 1 - ⌈value low⌉) (hn : ⌊value high⌋ + 1 - ⌈value low⌉ ≤ 2 ^ 52) :
    Stands (wholeNumbers low high) (⌊value high⌋ + 1 - ⌈value low⌉) := by
  obtain ⟨hf, hv⟩ := (rounds_wholeNumbers hl hh).value_intCast (abs_le.2 (by omega))
  have hadd := Stands.add_one ⟨hf, hv⟩
  have hstep : step (⌊value high⌋ - ⌈value low⌉) = ⌊value high⌋ + 1 - ⌈value low⌉ := by
    rw [step, if_pos (by omega)]
    omega
  rw [hstep] at hadd
  exact hadd.larger_zero h0

end Count

theorem stands_maxGridLines : Stands (.ofNat maxGridLines) 2000 := by
  have h : Binary.ofFloat? (.ofNat maxGridLines) = some ⟨false, 2000 * 2 ^ 42, -42⟩ := by
    decide +kernel
  obtain ⟨hf, hv⟩ := value_of_fields h
  exact ⟨hf, by rw [hv]; norm_num⟩

theorem lt_lineCount {e : Extent} {m n : ℤ} (h : 2001 ≤ m + n)
    (hc : AtLeast m (wholeNumbers e.left e.right)) (hr : AtLeast n (wholeNumbers e.bottom e.top)) :
    .ofNat maxGridLines < e.lineCount := by
  have hsum : AtLeast ((2001 : ℤ) : ℚ) e.lineCount := by
    apply hc.add hr (by norm_num)
    rw [← Int.cast_add]
    exact Int.cast_le.2 h
  apply hsum.lt stands_maxGridLines.finite
  rw [stands_maxGridLines.value_eq]
  norm_num

/-- The float count decides like the exact one. -/
theorem lt_lineCount_iff {e : Extent} (he : e.IsFinite) (hp : e.IsProper) :
    .ofNat maxGridLines < e.lineCount ↔ maxGridLines < e.columns.length + e.rows.length := by
  have hc : 0 ≤ ⌊value e.right⌋ + 1 - ⌈value e.left⌉ := by
    have hle := (Number.le_iff he.left he.right).1 hp.1
    have := (Int.ceil_mono hle).trans (Int.ceil_le_floor_add_one _)
    omega
  have hr : 0 ≤ ⌊value e.top⌋ + 1 - ⌈value e.bottom⌉ := by
    have hle := (Number.le_iff he.bottom he.top).1 hp.2
    have := (Int.ceil_mono hle).trans (Int.ceil_le_floor_add_one _)
    omega
  rw [Extent.columns, Extent.rows, if_pos hp, if_pos hp, Extent.wholes, Extent.wholes, length_range,
    length_range]
  constructor
  · intro hlt
    by_contra hle
    have hsmall : (⌊value e.right⌋ + 1 - ⌈value e.left⌉) + (⌊value e.top⌋ + 1 - ⌈value e.bottom⌉) ≤
        2000 := by
      rw [maxGridLines] at hle
      omega
    have hc' := stands_wholeNumbers he.left he.right hc (by omega)
    have hr' := stands_wholeNumbers he.bottom he.top hr (by omega)
    have hsum := rounds_add hc'.finite hr'.finite
    rw [hc'.value_eq, hr'.value_eq, ← Int.cast_add] at hsum
    obtain ⟨hf, hv⟩ := hsum.value_intCast (abs_le.2 (by omega))
    have hlt' := (Number.lt_iff stands_maxGridLines.finite hf).1 hlt
    rw [stands_maxGridLines.value_eq, hv] at hlt'
    have := Int.cast_lt.1 hlt'
    omega
  · intro hlt
    -- enough of the lines to decide, and few enough to count
    have hc' := atLeast_wholeNumbers he.left he.right
      (n := min (⌊value e.right⌋ + 1 - ⌈value e.left⌉) 2001) (abs_le.2 (by omega)) (min_le_left ..)
    have hr' := atLeast_wholeNumbers he.bottom he.top
      (n := min (⌊value e.top⌋ + 1 - ⌈value e.bottom⌉) 2001) (abs_le.2 (by omega)) (min_le_left ..)
    rw [maxGridLines] at hlt
    exact lt_lineCount (by omega) hc' hr'

end Preview

end Sketch
