import Sketch.Proofs.Number.Whole

/-!
Where the floats end. A number is rounded past the largest float exactly from half a step behind that
float on.
-/

open Float.Model.UnpackedFloat

namespace Sketch

/-- The number half-way between the largest float and the power of two behind it. -/
@[irreducible] def overflowThreshold : ℚ := 2 ^ 1024 - 2 ^ 970

variable {w : ℚ}

theorem pastLargest_eq (k : ℕ) (hk : k ≤ 1024) :
    pastLargest = 2 ^ k * 2 ^ ((1024 - k : ℕ) : ℤ) := by
  rw [pastLargest, zpow_natCast, ← pow_add]
  congr 1
  omega

theorem overflowThreshold_eq : overflowThreshold = pastLargest - 2 ^ (970 : ℤ) := by
  rw [overflowThreshold, pastLargest]
  rfl

theorem overflowThreshold_lt : overflowThreshold < pastLargest := by
  rw [overflowThreshold_eq]
  exact sub_lt_self _ (by positivity)

/-- The error of rounding is at most half a step. -/
theorem abs_rounded_sub_le (w : ℚ) : |rounded w - w| ≤ 2 ^ gridExponent w / 2 := by
  obtain ⟨hle, hge⟩ := (isNearest_nearestInt (w / 2 ^ gridExponent w)).bounds
  have hstep : (0 : ℚ) < 2 ^ gridExponent w := by positivity
  rw [rounded, abs_le]
  rw [le_div_iff₀ hstep] at hle
  rw [div_le_iff₀ hstep] at hge
  constructor <;> linarith

theorem abs_rounded_lt (h : |w| < overflowThreshold) : |rounded w| < pastLargest := by
  by_cases h0 : w = 0
  · rw [h0, rounded_zero, abs_zero]
    exact pastLargest_pos
  · have hlt : |w| < 2 ^ ((971 : ℤ) + 53) := by
      have hpast : pastLargest = 2 ^ ((971 : ℤ) + 53) := by rw [pastLargest]; rfl
      exact hpast ▸ h.trans overflowThreshold_lt
    have hgrid := gridExponent_le (by decide) h0 hlt
    have hstep : (2 : ℚ) ^ gridExponent w / 2 ≤ 2 ^ (970 : ℤ) := calc
      (2 : ℚ) ^ gridExponent w / 2 ≤ 2 ^ (971 : ℤ) / 2 := by
        gcongr
        exact one_le_two
      _ = 2 ^ (970 : ℤ) := by
        rw [show (971 : ℤ) = 970 + 1 by rfl, zpow_add_one₀ two_ne_zero]
        ring
    rw [overflowThreshold_eq] at h
    calc |rounded w| = |w + (rounded w - w)| := by rw [add_sub_cancel]
      _ ≤ |w| + |rounded w - w| := abs_add_le ..
      _ ≤ |w| + 2 ^ (970 : ℤ) := by
        gcongr
        exact (abs_rounded_sub_le w).trans hstep
      _ < pastLargest := by linarith

theorem gridExponent_overflowThreshold : gridExponent overflowThreshold = 971 := by
  have hone : (1 : ℚ) ≤ 2 ^ (970 : ℤ) := one_le_zpow₀ one_le_two (by decide)
  have hlarge : (2 : ℚ) ^ ((971 : ℤ) + 52) = 2 ^ 53 * 2 ^ (970 : ℤ) := by
    rw [← zpow_natCast, ← zpow_add₀ two_ne_zero]
    rfl
  have hpast : pastLargest = 2 ^ 54 * 2 ^ (970 : ℤ) := pastLargest_eq 54 (by decide)
  have hge : (2 : ℚ) ^ ((971 : ℤ) + 52) ≤ overflowThreshold := by
    rw [overflowThreshold_eq, hlarge, hpast]
    generalize (2 : ℚ) ^ (970 : ℤ) = q at hone ⊢
    linarith
  have hpos : 0 < overflowThreshold := lt_of_lt_of_le (by positivity) hge
  apply le_antisymm
  · apply gridExponent_le (by decide) hpos.ne'
    have hend : pastLargest = 2 ^ ((971 : ℤ) + 53) := by rw [pastLargest]; rfl
    rw [abs_of_pos hpos, ← hend]
    exact overflowThreshold_lt
  · apply le_gridExponent
    rwa [abs_of_pos hpos]

/-- Half-way the even neighbor is taken, and that is the one that is no float. -/
theorem rounded_overflowThreshold : rounded overflowThreshold = pastLargest := by
  have hq : overflowThreshold / 2 ^ (971 : ℤ) = ((2 ^ 53 - 1 : ℤ) : ℚ) + 1 / 2 := by
    have hpast : pastLargest = 2 ^ 53 * 2 ^ (971 : ℤ) := pastLargest_eq 53 (by decide)
    have hhalf : (2 : ℚ) ^ (971 : ℤ) = 2 ^ (970 : ℤ) * 2 := zpow_add_one₀ two_ne_zero 970
    rw [div_eq_iff (by positivity), overflowThreshold_eq, hpast, hhalf]
    generalize (2 : ℚ) ^ (970 : ℤ) = q
    push_cast
    ring
  have hn : nearestInt (((2 ^ 53 - 1 : ℤ) : ℚ) + 1 / 2) = 2 ^ 53 := (IsNearest.add_half _).eq
  rw [rounded, gridExponent_overflowThreshold, hq, hn, pastLargest_eq 53 (by decide), Int.cast_pow,
    Int.cast_ofNat]
  rfl

theorem pastLargest_le_rounded_iff : pastLargest ≤ rounded w ↔ overflowThreshold ≤ w := by
  constructor
  · intro h
    by_contra hlt
    rcases le_total 0 w with h0 | h0
    · have habs : |w| < overflowThreshold := by rwa [abs_of_nonneg h0, ← not_le]
      exact absurd (h.trans (le_abs_self _)) (not_le.2 (abs_rounded_lt habs))
    · have hr : rounded w ≤ 0 := rounded_zero ▸ rounded_mono h0
      exact absurd (h.trans hr) (not_le.2 pastLargest_pos)
  · intro h
    rw [← rounded_overflowThreshold]
    exact rounded_mono h

namespace Number

variable {x : Float}

theorem not_isFinite_of_infinite {s : Sign} (h : x.toModel.unpack = .infinity s) :
    ¬x.isFinite = true := by
  change ¬x.toModel.unpack.isFinite = true
  rw [h]
  exact Bool.false_ne_true

namespace Rounds

theorem isFinite_iff (h : Rounds w x) : x.isFinite = true ↔ |w| < overflowThreshold := by
  have hle : overflowThreshold ≤ |w| ↔ pastLargest ≤ |rounded w| := by
    rw [abs_rounded, pastLargest_le_rounded_iff]
  rw [← not_le, hle, not_le]
  cases h with
  | finite hx hv => exact iff_of_true hx (hv ▸ abs_value_lt hx)
  | above hx hw =>
    exact iff_of_false (not_isFinite_of_infinite hx) (not_lt.2 (hw.trans (le_abs_self _)))
  | below hx hw =>
    have habs := (le_neg_of_le_neg hw).trans (neg_le_abs _)
    exact iff_of_false (not_isFinite_of_infinite hx) (not_lt.2 habs)

end Rounds

end Number

end Sketch
