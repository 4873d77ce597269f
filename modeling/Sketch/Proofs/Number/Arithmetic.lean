import Sketch.Proofs.Number.Nearest

/-!
Sums, differences, products and quotients of finite floats are the floats nearest to the exact
results. The model computes with a mantissa and two bits for what lies behind it, and these bits are
enough to round.
-/

open Float.Model Float.Model.UnpackedFloat

namespace Sketch

/-! ### Bits behind a mantissa -/

theorem mantissa_ofMantissaAndAccuracy (m : ℕ) (accuracy : Accuracy) :
    (ExtendedMantissa.ofMantissaAndAccuracy m accuracy).mantissa = m := by
  unfold ExtendedMantissa.ofMantissaAndAccuracy
  split
  · rfl
  · rfl
  · rfl
  · rfl

/-- A mantissa followed by a number's first binary digit and by whether there are further ones. -/
structure Marks (em : ExtendedMantissa) (u : ℚ) : Prop where
  le : (em.mantissa : ℚ) ≤ u
  lt : u < em.mantissa + 1
  round : em.roundBit = true ↔ (em.mantissa : ℚ) + 1 / 2 ≤ u
  sticky : em.stickyBit = true ↔ u ≠ em.mantissa ∧ u ≠ em.mantissa + 1 / 2

namespace Marks

variable {em : ExtendedMantissa} {u : ℚ} {m : ℕ}

theorem exact (m : ℕ) : Marks (.ofMantissaAndAccuracy m .exact) m := by
  refine ⟨le_rfl, lt_add_one _, ?_, ?_⟩
  · simp [ExtendedMantissa.ofMantissaAndAccuracy]
  · simp [ExtendedMantissa.ofMantissaAndAccuracy]

theorem inexact (h : (m : ℚ) < u) (h' : u < m + 1) :
    Marks (.ofMantissaAndAccuracy m (.inexact (compare (2 * (u - m)) 1))) u := by
  rcases lt_trichotomy (2 * (u - m)) 1 with hc | hc | hc
  · rw [compare_lt_iff_lt.2 hc]
    refine ⟨h.le, h', ?_, ?_⟩
    · simp only [ExtendedMantissa.ofMantissaAndAccuracy, Bool.false_eq_true, false_iff]
      linarith
    · simp only [ExtendedMantissa.ofMantissaAndAccuracy, true_iff]
      exact ⟨h.ne', by linarith⟩
  · rw [compare_eq_iff_eq.2 hc]
    refine ⟨h.le, h', ?_, ?_⟩
    · simp only [ExtendedMantissa.ofMantissaAndAccuracy, true_iff]
      linarith
    · simp only [ExtendedMantissa.ofMantissaAndAccuracy, Bool.false_eq_true, false_iff, not_and,
        not_not]
      intro
      linarith
  · rw [compare_gt_iff_gt.2 hc]
    refine ⟨h.le, h', ?_, ?_⟩
    · simp only [ExtendedMantissa.ofMantissaAndAccuracy, true_iff]
      linarith
    · simp only [ExtendedMantissa.ofMantissaAndAccuracy, true_iff]
      exact ⟨h.ne', by linarith⟩

/-- The remainder of a division tells where the quotient lies. -/
theorem quotient (n : ℕ) {d : ℕ} (hd : 0 < d) :
    Marks (.ofMantissaAndAccuracy (n / d) (accuracyOfFraction (n % d) d)) (n / d) := by
  have hd' : (0 : ℚ) < d := by exact_mod_cast hd
  have hlt : ((n % d : ℕ) : ℚ) < d := by exact_mod_cast Nat.mod_lt n hd
  have hn : (n : ℚ) / d - (n / d : ℕ) = (n % d : ℕ) / (d : ℚ) := by
    rw [sub_eq_iff_eq_add, div_eq_iff hd'.ne', add_mul, div_mul_cancel₀ _ hd'.ne', add_comm,
      mul_comm _ (d : ℚ)]
    exact_mod_cast (Nat.div_add_mod n d).symm
  unfold accuracyOfFraction
  split
  · next h0 =>
    have hq : (n : ℚ) / d = (n / d : ℕ) := by
      rw [← sub_eq_zero, hn, h0, Nat.cast_zero, zero_div]
    rw [hq]
    exact .exact _
  · next h0 =>
    have hpos : (0 : ℚ) < (n % d : ℕ) := by exact_mod_cast Nat.pos_of_ne_zero h0
    have hc : compare (2 * (n % d)) d = compare (2 * ((n : ℚ) / d - (n / d : ℕ))) 1 := by
      rw [hn, ← mul_div_assoc]
      rcases Nat.lt_trichotomy (2 * (n % d)) d with hlt | heq | hgt
      · rw [compare_lt_iff_lt.2 hlt, eq_comm, compare_lt_iff_lt, div_lt_one hd']
        exact_mod_cast hlt
      · rw [compare_eq_iff_eq.2 heq, eq_comm, compare_eq_iff_eq, div_eq_one_iff_eq hd'.ne']
        exact_mod_cast heq
      · rw [compare_gt_iff_gt.2 hgt, eq_comm, compare_gt_iff_gt, one_lt_div hd']
        exact_mod_cast hgt
    have h₁ : 0 < ((n % d : ℕ) : ℚ) / d := by positivity
    have h₂ : ((n % d : ℕ) : ℚ) / d < 1 := (div_lt_one hd').2 hlt
    rw [hc]
    exact inexact (by linarith) (by linarith)

theorem eq_or_eq_add_half (h : Marks em u) (hs : em.stickyBit = false) :
    u = em.mantissa ∨ u = em.mantissa + 1 / 2 := by
  by_contra hne
  have := h.sticky.2 (not_or.1 hne)
  rw [hs] at this
  contradiction

theorem isNearest (h : Marks em u) : IsNearest u em.roundedMantissa := by
  obtain ⟨m, roundBit, stickyBit⟩ := em
  have hle := h.le
  have hlt := h.lt
  have hr := h.round
  have hs := h.sticky
  dsimp only at hle hlt hr hs
  cases roundBit with
  | false =>
    have hlow : u < m + 1 / 2 := by
      by_contra hge
      simpa using hr.2 (not_lt.1 hge)
    have hn : IsNearest u m := .of_abs_lt (abs_lt.2 (by push_cast; constructor <;> linarith))
    cases stickyBit with
    | false => exact hn
    | true => exact hn
  | true =>
    have hhigh : (m : ℚ) + 1 / 2 ≤ u := hr.1 rfl
    cases stickyBit with
    | false =>
      obtain rfl : u = (m : ℤ) + 1 / 2 := by
        rcases h.eq_or_eq_add_half rfl with hu | hu
        · dsimp only at hu
          linarith
        · exact_mod_cast hu
      exact_mod_cast IsNearest.add_half m
    | true =>
      have hne : u ≠ m + 1 / 2 := (hs.1 rfl).2
      have hgt := lt_of_le_of_ne hhigh hne.symm
      have hn : IsNearest u (m + 1 : ℕ) :=
        .of_abs_lt (abs_lt.2 (by push_cast; constructor <;> linarith))
      exact hn

/-- The bits behind the mantissa are those of what is left. -/
theorem bits_iff (h : Marks em u) : (em.roundBit || em.stickyBit) = true ↔ u ≠ em.mantissa := by
  rw [Bool.or_eq_true, h.round, h.sticky]
  constructor
  · rintro (hr | hs)
    · intro hu
      linarith
    · exact hs.1
  · intro hu
    by_cases hh : u = em.mantissa + 1 / 2
    · exact .inl hh.ge
    · exact .inr ⟨hu, hh⟩

/-- Halving moves the last digit of the mantissa behind it. -/
theorem shiftRightOne (h : Marks em u) : Marks em.shiftRightOne (u / 2) := by
  have hbits := h.bits_iff
  obtain ⟨m, roundBit, stickyBit⟩ := em
  have hle := h.le
  have hlt := h.lt
  have hm : (m : ℚ) = 2 * (m / 2 : ℕ) + (m % 2 : ℕ) := by exact_mod_cast (Nat.div_add_mod m 2).symm
  dsimp only at hle hlt hbits
  rcases Nat.mod_two_eq_zero_or_one m with h0 | h1
  · rw [h0, Nat.cast_zero, add_zero] at hm
    refine ⟨?_, ?_, ?_, ?_⟩
    · simp only [ExtendedMantissa.shiftRightOne]
      linarith
    · simp only [ExtendedMantissa.shiftRightOne]
      linarith
    · simp only [ExtendedMantissa.shiftRightOne, h0]
      simp
      linarith
    · simp only [ExtendedMantissa.shiftRightOne, hbits]
      constructor
      · intro hu
        exact ⟨fun h => hu (by linarith), fun h => by linarith⟩
      · rintro ⟨hu, -⟩ h
        exact hu (by linarith)
  · rw [h1, Nat.cast_one] at hm
    refine ⟨?_, ?_, ?_, ?_⟩
    · simp only [ExtendedMantissa.shiftRightOne]
      linarith
    · simp only [ExtendedMantissa.shiftRightOne]
      linarith
    · simp only [ExtendedMantissa.shiftRightOne, h1]
      simp
      linarith
    · simp only [ExtendedMantissa.shiftRightOne, hbits]
      constructor
      · intro hu
        exact ⟨fun h => by linarith, fun h => hu (by linarith)⟩
      · rintro ⟨-, hu⟩ h
        exact hu (by linarith)

theorem shiftRight (h : Marks em u) (n : ℕ) : Marks (em >>> n) (u / 2 ^ n) := by
  induction n with
  | zero =>
    rw [pow_zero, div_one]
    exact h
  | succ n ih =>
    rw [pow_succ, ← div_div]
    exact ih.shiftRightOne

end Marks

/-! ### Rounding in the model -/

theorem log_eq {u : ℚ} {k : ℤ} (h₁ : 2 ^ k ≤ u) (h₂ : u < 2 ^ (k + 1)) : Int.log 2 u = k := by
  have hu : 0 < u := lt_of_lt_of_le (by positivity) h₁
  apply le_antisymm
  · rw [← Int.lt_add_one_iff, ← Int.lt_zpow_iff_log_lt one_lt_two hu]
    exact_mod_cast h₂
  · rw [← Int.zpow_le_iff_le_log one_lt_two hu]
    exact_mod_cast h₁

section Round

variable {negative : Bool} {m : ℕ} {e : ℤ} {accuracy : Accuracy} {u : ℚ}

/-- The model chooses the same exponent. -/
theorem targetExponent_eq_gridExponent (hm : 0 < m)
    (h : Marks (.ofMantissaAndAccuracy m accuracy) (u / 2 ^ e)) :
    Format.binary64.targetExponent (totalExponent m e) = gridExponent u := by
  have hle := h.le
  have hlt := h.lt
  rw [mantissa_ofMantissaAndAccuracy, le_div_iff₀ (by positivity)] at hle
  rw [mantissa_ofMantissaAndAccuracy, div_lt_iff₀ (by positivity)] at hlt
  have h₁ : (2 : ℚ) ^ m.log2 ≤ m := by exact_mod_cast Nat.log2_self_le hm.ne'
  have h₂ : (m : ℚ) + 1 ≤ 2 ^ (m.log2 + 1) := by exact_mod_cast @Nat.lt_log2_self m
  have hu : 0 < u := lt_of_lt_of_le (by positivity) hle
  have hlog : Int.log 2 u = m.log2 + e := by
    apply log_eq
    · calc (2 : ℚ) ^ ((m.log2 : ℤ) + e) = 2 ^ m.log2 * 2 ^ e := by
            rw [zpow_add₀ two_ne_zero, zpow_natCast]
        _ ≤ m * 2 ^ e := by gcongr
        _ ≤ u := hle
    · calc u < (m + 1) * 2 ^ e := hlt
        _ ≤ 2 ^ (m.log2 + 1) * 2 ^ e := by gcongr
        _ = 2 ^ ((m.log2 : ℤ) + e + 1) := by
            rw [← zpow_natCast, ← zpow_add₀ two_ne_zero]
            congr 1
            push_cast
            ring
  rw [Number.targetExponent_eq, totalExponent, gridExponent, abs_of_pos hu, hlog]
  omega

theorem shiftToTargetExponent_of_lt (hm : m < 2 ^ 53) (he : leastExponent ≤ e) :
    shiftToTargetExponent .binary64 m e .exact = (.ofMantissaAndAccuracy m .exact, e) := by
  have hl : m.log2 ≤ 52 := by
    rcases Nat.eq_zero_or_pos m with rfl | h0
    · decide
    · have := (Nat.log2_lt h0.ne').2 hm
      omega
  have ht : (Format.binary64.targetExponent (totalExponent m e) - e).toNat = 0 := by
    rw [Number.targetExponent_eq, totalExponent]
    omega
  rw [shiftToTargetExponent, shiftToExponent, ht, Int.natCast_zero, Int.add_zero]
  rfl

theorem shiftToTargetExponent_two_pow (he : leastExponent ≤ e) :
    shiftToTargetExponent .binary64 (2 ^ 53) e .exact =
      (.ofMantissaAndAccuracy (2 ^ 52) .exact, e + 1) := by
  have hl : (2 ^ 53 : ℕ).log2 = 53 := Nat.log2_two_pow
  have ht : (Format.binary64.targetExponent (totalExponent (2 ^ 53) e) - e).toNat = 1 := by
    rw [Number.targetExponent_eq, totalExponent, hl]
    omega
  rw [shiftToTargetExponent, shiftToExponent, ht]
  rfl

/-- A mantissa with the bits behind it is rounded to the nearest significand. -/
theorem roundWithAccuracy_eq (hu : 0 < u)
    (h : Marks (.ofMantissaAndAccuracy m accuracy) (u / 2 ^ e))
    (ht : Format.binary64.targetExponent (totalExponent m e) = gridExponent u)
    (he : e ≤ gridExponent u) :
    roundWithAccuracy .binary64 (signOf negative) m e accuracy =
      (Binary.nearest u negative).unpacked := by
  have hshift : e + ((gridExponent u - e).toNat : ℤ) = gridExponent u := by omega
  have hmarks := h.shiftRight (gridExponent u - e).toNat
  have hu' : u / 2 ^ e / 2 ^ (gridExponent u - e).toNat = u / 2 ^ gridExponent u := by
    rw [div_div, ← zpow_natCast, ← zpow_add₀ two_ne_zero, hshift]
  rw [hu'] at hmarks
  have hk := hmarks.isNearest.eq
  have hle := nearestInt_le_of_pos hu
  have hleast := leastExponent_le_gridExponent u
  rw [Binary.nearest, hk, Int.natAbs_natCast]
  rw [hk] at hle
  rw [roundWithAccuracy, shiftToTargetExponent, ht, shiftToExponent, hshift]
  dsimp only
  generalize ExtendedMantissa.roundedMantissa _ = k at hle
  have hle : k ≤ 2 ^ 53 := by exact_mod_cast hle
  by_cases hk : k = 2 ^ 53
  · rw [hk, Binary.onGrid, if_pos rfl, shiftToTargetExponent_two_pow hleast]
    rfl
  · rw [Binary.onGrid, if_neg hk, shiftToTargetExponent_of_lt (lt_of_le_of_ne hle hk) hleast,
      Binary.unpacked]
    change (if h : k = 0 then zero _ else finite _ k _ _) = _
    split
    · next h0 => rw [dif_neg (by simp [h0])]
    · next h0 => rw [dif_pos (Nat.pos_of_ne_zero h0)]

/-- The model rounds whatever the exponent is. -/
theorem round_eq (hm : 0 < m) : UnpackedFloat.round .binary64 (signOf negative) m e =
    (Binary.nearest (m * 2 ^ e) negative).unpacked := by
  have hself (k : ℕ) (d : ℤ) : Marks (.ofMantissaAndAccuracy k .exact) ((k * 2 ^ d : ℚ) / 2 ^ d) := by
    rw [mul_div_cancel_right₀ _ (by positivity)]
    exact .exact k
  have ht := targetExponent_eq_gridExponent hm (hself m e)
  generalize hn : (e - gridExponent (m * 2 ^ e)).toNat = n
  have hvalue : ((m * 2 ^ n : ℕ) : ℚ) * 2 ^ (e - n : ℤ) = m * 2 ^ e := by
    push_cast
    rw [mul_assoc, ← zpow_natCast, ← zpow_add₀ two_ne_zero, add_sub_cancel]
  have htotal : totalExponent (m * 2 ^ n) (e - n) = totalExponent m e := by
    rw [totalExponent, totalExponent, Number.log2_mul_pow hm]
    push_cast
    ring
  rw [UnpackedFloat.round, decreaseExponent, ht, hn, Nat.shiftLeft_eq]
  apply roundWithAccuracy_eq (by positivity)
  · rw [← hvalue]
    exact hself _ _
  · rw [htotal, ht]
  · omega

end Round

/-! ### Signs and zeros -/

theorem signOf_mul (s t : Bool) : signOf s * signOf t = signOf (s ^^ t) := by
  cases s <;> cases t <;> rfl

theorem signOf_div (s t : Bool) : signOf s / signOf t = signOf (s ^^ t) := by
  cases s <;> cases t <;> rfl

namespace Binary

variable {a b : Binary}

theorem apply_signOf (b : Binary) (n : ℕ) :
    (signOf b.negative).apply ((b.significand <<< n : ℕ) : ℤ) = b.signed * 2 ^ n := by
  rw [Nat.shiftLeft_eq, signed]
  cases b.negative with
  | true => simp [signOf, Sign.apply]
  | false => simp [signOf, Sign.apply]

/-- A common exponent changes no number. -/
theorem signed_mul_two_pow (b : Binary) {e : ℤ} (h : e ≤ b.exponent) :
    ((b.signed * 2 ^ (b.exponent - e).toNat : ℤ) : ℚ) * 2 ^ e = b.value := by
  have hsum : ((b.exponent - e).toNat : ℤ) + e = b.exponent := by omega
  rw [value, Int.cast_mul, Int.cast_pow, Int.cast_ofNat, mul_assoc, ← zpow_natCast,
    ← zpow_add₀ two_ne_zero, hsum]

theorem value_eq_zero (h : ¬ 0 < b.significand) : b.value = 0 := by
  have hs : b.signed = 0 := Int.natAbs_eq_zero.1 (b.natAbs_signed.trans (by omega))
  rw [value, hs, Int.cast_zero, zero_mul]

theorem IsScaled.negated (h : b.IsScaled) :
    ({ b with negative := !b.negative } : Binary).IsScaled :=
  ⟨h.significand_lt, h.le_exponent, h.full⟩

theorem value_negated (b : Binary) :
    ({ b with negative := !b.negative } : Binary).value = -b.value := by
  cases hs : b.negative with
  | true => simp [value, signed, hs]
  | false => simp [value, signed, hs]

theorem unpacked_of_pos (h : 0 < b.significand) :
    b.unpacked = .finite (signOf b.negative) b.significand b.exponent h := dif_pos h

theorem unpacked_of_not_pos (h : ¬ 0 < b.significand) : b.unpacked = .zero (signOf b.negative) :=
  dif_neg h

theorem value_eq (b : Binary) :
    b.value = if b.negative then -b.magnitude.value else b.magnitude.value := by
  rw [value, signed, value_magnitude]
  split
  · push_cast
    ring
  · rfl

theorem value_mul (a b : Binary) : a.value * b.value =
    if a.negative ^^ b.negative then -(a.magnitude.value * b.magnitude.value)
    else a.magnitude.value * b.magnitude.value := by
  rw [value_eq, value_eq]
  cases a.negative <;> cases b.negative <;> simp

theorem value_div (a b : Binary) : a.value / b.value =
    if a.negative ^^ b.negative then -(a.magnitude.value / b.magnitude.value)
    else a.magnitude.value / b.magnitude.value := by
  rw [value_eq, value_eq]
  cases a.negative <;> cases b.negative <;> simp [neg_div, div_neg]

theorem magnitude_pos (h : 0 < b.significand) : 0 < b.magnitude.value := by
  rw [value_magnitude]
  positivity

/-- The quotient is at least the half of the quotient of the leading digits. -/
theorem le_log_div (ha : 0 < a.significand) (hb : 0 < b.significand) :
    a.significand.log2 + a.exponent - (b.significand.log2 + b.exponent) - 1 ≤
      Int.log 2 (a.magnitude.value / b.magnitude.value) := by
  have ha' := Int.zpow_log_le_self (R := ℚ) one_lt_two (magnitude_pos ha)
  have hb' := Int.lt_zpow_succ_log_self (R := ℚ) one_lt_two b.magnitude.value
  rw [log_magnitude ha] at ha'
  rw [log_magnitude hb] at hb'
  have hu := div_pos (magnitude_pos ha) (magnitude_pos hb)
  rw [← Int.zpow_le_iff_le_log one_lt_two hu, le_div_iff₀ (magnitude_pos hb)]
  push_cast at ha' hb' ⊢
  calc (2 : ℚ) ^ ((a.significand.log2 : ℤ) + a.exponent - (b.significand.log2 + b.exponent) - 1) *
        b.magnitude.value
      ≤ 2 ^ ((a.significand.log2 : ℤ) + a.exponent - (b.significand.log2 + b.exponent) - 1) *
        2 ^ ((b.significand.log2 : ℤ) + b.exponent + 1) := by gcongr
    _ = 2 ^ ((a.significand.log2 : ℤ) + a.exponent) := by
        rw [← zpow_add₀ two_ne_zero]
        congr 1
        ring
    _ ≤ a.magnitude.value := ha'

end Binary

/-! ### Results of the model -/

/-- The float of a model's result that is `w` but for rounding. -/
def RoundsTo (w : ℚ) (u : UnpackedFloat) : Prop :=
  ∃ b : Binary, b.IsScaled ∧ u = b.unpacked ∧ b.value = rounded w

namespace RoundsTo

open Binary

theorem zero (s : Bool) : RoundsTo 0 (.zero (signOf s)) := by
  refine ⟨⟨s, 0, leastExponent⟩, ⟨by norm_num, le_rfl, .inr rfl⟩, rfl, ?_⟩
  rw [rounded_zero, Binary.value, Binary.signed]
  simp

theorem value {b : Binary} (h : b.IsScaled) : RoundsTo b.value b.unpacked :=
  ⟨b, h, rfl, (Binary.rounded_value h).symm⟩

theorem nearest {u : ℚ} (hu : 0 < u) (negative : Bool) :
    RoundsTo (if negative then -u else u) (Binary.nearest u negative).unpacked := by
  refine ⟨_, Binary.isScaled_nearest hu.ne' negative, rfl, ?_⟩
  cases negative with
  | true =>
    rw [← Binary.nearest_neg]
    exact Binary.value_nearest_of_nonpos (neg_nonpos.2 hu.le)
  | false => exact Binary.value_nearest_of_nonneg hu.le

theorem normalize (n e : ℤ) :
    RoundsTo (n * 2 ^ e) (UnpackedFloat.normalize .binary64 n e .positive) := by
  unfold UnpackedFloat.normalize
  rcases lt_trichotomy n 0 with hn | rfl | hn
  · have habs : ((-n).toNat : ℚ) = -n := by exact_mod_cast Int.toNat_of_nonneg (by omega : 0 ≤ -n)
    have hpos : (0 : ℚ) < (-n).toNat * 2 ^ e := by
      rw [habs]
      have : (n : ℚ) < 0 := by exact_mod_cast hn
      have := neg_pos.2 this
      positivity
    have h := nearest hpos true
    rw [← round_eq (by omega), if_pos rfl, habs, neg_mul, neg_neg] at h
    rw [compare_lt_iff_lt.2 hn]
    exact h
  · rw [Int.cast_zero, zero_mul]
    exact zero false
  · have habs : (n.toNat : ℚ) = n := by exact_mod_cast Int.toNat_of_nonneg hn.le
    have hpos : (0 : ℚ) < n.toNat * 2 ^ e := by
      rw [habs]
      positivity
    have h := nearest hpos false
    rw [← round_eq (by omega), if_neg Bool.false_ne_true, habs] at h
    rw [compare_gt_iff_gt.2 hn]
    exact h

variable {a b : Binary}

theorem add (ha : a.IsScaled) (hb : b.IsScaled) :
    RoundsTo (a.value + b.value) (UnpackedFloat.add .binary64 a.unpacked b.unpacked) := by
  by_cases ha0 : 0 < a.significand
  · by_cases hb0 : 0 < b.significand
    · rw [unpacked_of_pos ha0, unpacked_of_pos hb0]
      simp only [UnpackedFloat.add, decreaseExponent, apply_signOf]
      rw [← signed_mul_two_pow a (min_le_left _ b.exponent),
        ← signed_mul_two_pow b (min_le_right a.exponent _), ← add_mul, ← Int.cast_add]
      exact normalize _ _
    · rw [value_eq_zero hb0, add_zero, unpacked_of_not_pos hb0, unpacked_of_pos ha0]
      have h := value ha
      rwa [unpacked_of_pos ha0] at h
  · by_cases hb0 : 0 < b.significand
    · rw [value_eq_zero ha0, zero_add, unpacked_of_not_pos ha0, unpacked_of_pos hb0]
      have h := value hb
      rwa [unpacked_of_pos hb0] at h
    · rw [value_eq_zero ha0, value_eq_zero hb0, add_zero, unpacked_of_not_pos ha0,
        unpacked_of_not_pos hb0, UnpackedFloat.add]
      split
      · exact zero _
      · exact zero false

theorem sub (ha : a.IsScaled) (hb : b.IsScaled) :
    RoundsTo (a.value - b.value) (UnpackedFloat.sub .binary64 a.unpacked b.unpacked) := by
  by_cases ha0 : 0 < a.significand
  · by_cases hb0 : 0 < b.significand
    · rw [unpacked_of_pos ha0, unpacked_of_pos hb0]
      simp only [UnpackedFloat.sub, decreaseExponent, apply_signOf]
      rw [← signed_mul_two_pow a (min_le_left _ b.exponent),
        ← signed_mul_two_pow b (min_le_right a.exponent _), ← sub_mul, ← Int.cast_sub]
      exact normalize _ _
    · rw [value_eq_zero hb0, sub_zero, unpacked_of_not_pos hb0, unpacked_of_pos ha0]
      have h := value ha
      rwa [unpacked_of_pos ha0] at h
  · by_cases hb0 : 0 < b.significand
    · have h := value hb.negated
      rw [value_negated, unpacked_of_pos (b := { b with negative := !b.negative }) hb0] at h
      rw [value_eq_zero ha0, zero_sub, unpacked_of_not_pos ha0, unpacked_of_pos hb0]
      cases hs : b.negative with
      | true =>
        rw [hs] at h
        exact h
      | false =>
        rw [hs] at h
        exact h
    · rw [value_eq_zero ha0, value_eq_zero hb0, sub_zero, unpacked_of_not_pos ha0,
        unpacked_of_not_pos hb0, UnpackedFloat.sub]
      split
      · exact zero _
      · exact zero false

/-- Of two scaled significands the product has all the digits of a float, or both are as small as can
be. -/
theorem exponent_add_le (ha : a.IsScaled) (hb : b.IsScaled) (ha0 : 0 < a.significand)
    (hb0 : 0 < b.significand) : a.exponent + b.exponent ≤
      Format.binary64.targetExponent
        (totalExponent (a.significand * b.significand) (a.exponent + b.exponent)) := by
  have hpos := Nat.mul_pos ha0 hb0
  have hlog (h : 2 ^ 52 ≤ a.significand * b.significand) :
      52 ≤ (a.significand * b.significand).log2 := (Nat.le_log2 hpos.ne').2 h
  rw [Number.targetExponent_eq, totalExponent]
  rcases ha.full with hfull | hleast
  · have := hlog (hfull.trans (Nat.le_mul_of_pos_right _ hb0))
    omega
  · rcases hb.full with hfull | hleast'
    · have := hlog (hfull.trans (Nat.le_mul_of_pos_left _ ha0))
      omega
    · simp only [leastExponent] at *
      omega

theorem mul_of_pos (ha : a.IsScaled) (hb : b.IsScaled) (ha0 : 0 < a.significand)
    (hb0 : 0 < b.significand) :
    RoundsTo (a.value * b.value) (UnpackedFloat.mul .binary64 a.unpacked b.unpacked) := by
  have hmarks : Marks (.ofMantissaAndAccuracy (a.significand * b.significand) .exact)
      (a.magnitude.value * b.magnitude.value / 2 ^ (a.exponent + b.exponent)) := by
    have hvalue : a.magnitude.value * b.magnitude.value =
        (a.significand * b.significand : ℕ) * 2 ^ (a.exponent + b.exponent) := by
      rw [value_magnitude, value_magnitude, zpow_add₀ two_ne_zero]
      push_cast
      ring
    rw [hvalue, mul_div_cancel_right₀ _ (by positivity)]
    exact .exact _
  have ht := targetExponent_eq_gridExponent (Nat.mul_pos ha0 hb0) hmarks
  have he := exponent_add_le ha hb ha0 hb0
  rw [ht] at he
  have hu := mul_pos (magnitude_pos ha0) (magnitude_pos hb0)
  rw [unpacked_of_pos ha0, unpacked_of_pos hb0, value_mul]
  simp only [UnpackedFloat.mul, signOf_mul]
  rw [roundWithAccuracy_eq hu hmarks ht he]
  exact nearest hu _

theorem mul (ha : a.IsScaled) (hb : b.IsScaled) :
    RoundsTo (a.value * b.value) (UnpackedFloat.mul .binary64 a.unpacked b.unpacked) := by
  by_cases ha0 : 0 < a.significand
  · by_cases hb0 : 0 < b.significand
    · exact mul_of_pos ha hb ha0 hb0
    · rw [value_eq_zero hb0, mul_zero, unpacked_of_not_pos hb0, unpacked_of_pos ha0]
      simp only [UnpackedFloat.mul, signOf_mul]
      exact zero _
  · rw [value_eq_zero ha0, zero_mul, unpacked_of_not_pos ha0]
    by_cases hb0 : 0 < b.significand
    · rw [unpacked_of_pos hb0]
      simp only [UnpackedFloat.mul, signOf_mul]
      exact zero _
    · rw [unpacked_of_not_pos hb0]
      simp only [UnpackedFloat.mul, signOf_mul]
      exact zero _

/-- The quotient of the mantissas has enough digits, or the result is below the least float. -/
theorem div_of_pos (ha0 : 0 < a.significand) (hb0 : 0 < b.significand) :
    RoundsTo (a.value / b.value) (UnpackedFloat.div .binary64 a.unpacked b.unpacked) := by
  generalize hT : Format.binary64.targetExponent (totalExponent a.significand a.exponent -
    totalExponent b.significand b.exponent) = T
  generalize he : min (a.exponent - b.exponent) T = e
  generalize hn : a.significand <<< (a.exponent - b.exponent - e).toNat = n
  have hu := div_pos (magnitude_pos ha0) (magnitude_pos hb0)
  have hvalue : a.magnitude.value / b.magnitude.value = n / b.significand * 2 ^ e := by
    have hshift : (n : ℚ) = a.significand * 2 ^ (a.exponent - b.exponent - e) := by
      rw [← hn, Nat.shiftLeft_eq]
      push_cast
      rw [← zpow_natCast, Int.toNat_of_nonneg (by omega)]
    rw [hshift, value_magnitude, value_magnitude, zpow_sub₀ two_ne_zero,
      zpow_sub₀ two_ne_zero]
    field_simp
  have hmarks : Marks (.ofMantissaAndAccuracy (n / b.significand)
      (accuracyOfFraction (n % b.significand) b.significand))
      (a.magnitude.value / b.magnitude.value / 2 ^ e) := by
    rw [hvalue, mul_div_cancel_right₀ _ (by positivity)]
    exact .quotient n hb0
  have hlog := le_log_div ha0 hb0
  have hgrid : gridExponent (a.magnitude.value / b.magnitude.value) =
      max (Int.log 2 (a.magnitude.value / b.magnitude.value) - 52) leastExponent := by
    rw [gridExponent, abs_of_pos hu]
  have hT' : T = max (a.significand.log2 + a.exponent - (b.significand.log2 + b.exponent) - 53)
      leastExponent := by
    rw [← hT, Number.targetExponent_eq, totalExponent, totalExponent]
    omega
  have hle : e ≤ gridExponent (a.magnitude.value / b.magnitude.value) := by omega
  have ht : Format.binary64.targetExponent (totalExponent (n / b.significand) e) =
      gridExponent (a.magnitude.value / b.magnitude.value) := by
    rcases Nat.eq_zero_or_pos (n / b.significand) with h0 | hpos
    · have hlt := hmarks.lt
      rw [mantissa_ofMantissaAndAccuracy, h0, Nat.cast_zero, zero_add,
        div_lt_one (by positivity)] at hlt
      have hlog' : Int.log 2 (a.magnitude.value / b.magnitude.value) < e := by
        rw [← Int.lt_zpow_iff_log_lt one_lt_two hu]
        exact_mod_cast hlt
      have hzero : Nat.log2 0 = 0 := rfl
      rw [Number.targetExponent_eq, totalExponent, h0, hzero]
      omega
    · exact targetExponent_eq_gridExponent hpos hmarks
  rw [unpacked_of_pos ha0, unpacked_of_pos hb0, value_div]
  simp only [UnpackedFloat.div, divCore, signOf_div, hT, he, hn]
  rw [roundWithAccuracy_eq hu hmarks ht hle]
  exact nearest hu _

theorem div (a : Binary) (hb0 : 0 < b.significand) :
    RoundsTo (a.value / b.value) (UnpackedFloat.div .binary64 a.unpacked b.unpacked) := by
  by_cases ha0 : 0 < a.significand
  · exact div_of_pos ha0 hb0
  · rw [value_eq_zero ha0, zero_div, unpacked_of_not_pos ha0, unpacked_of_pos hb0]
    simp only [UnpackedFloat.div, signOf_div]
    exact zero _

end RoundsTo

end Sketch
