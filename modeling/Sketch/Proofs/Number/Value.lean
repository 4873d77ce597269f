import Sketch.Number.Decimal
import Sketch.Proofs.Number.Bits

/-!
Rounding sees the value of a quotient only, not how it is written. So the decimals that stand for a
float may be taken apart and put together again, as long as the value stays.
-/

namespace Sketch

namespace Fraction

def value (r : Fraction) : ℚ := r.num / r.den

variable {r s : Fraction}

theorem value_timesPow (r : Fraction) (base : Nat) (e : Int) :
    (r.timesPow base e).value = r.value * (base : ℚ) ^ e := by
  cases e with
  | ofNat e =>
    simp only [timesPow, value, Nat.pow_eq, Int.ofNat_eq_natCast, zpow_natCast]
    push_cast
    ring
  | negSucc e =>
    simp only [timesPow, value, Nat.pow_eq, zpow_negSucc]
    push_cast
    rw [div_mul_eq_div_div, div_eq_mul_inv (_ / _)]

theorem den_timesPow_pos (h : 0 < r.den) {base : Nat} (hb : 0 < base) (e : Int) :
    0 < (r.timesPow base e).den := by
  cases e with
  | ofNat e => exact h
  | negSucc e => exact Nat.mul_pos h (Nat.pow_pos hb)

theorem num_timesPow_pos (h : 0 < r.num) {base : Nat} (hb : 0 < base) (e : Int) :
    0 < (r.timesPow base e).num := by
  cases e with
  | ofNat e => exact Nat.mul_pos h (Nat.pow_pos hb)
  | negSucc e => exact h

theorem floor_eq (r : Fraction) : r.floor = ⌊r.value⌋₊ := (Nat.floor_div_eq_div ..).symm

/-- What lies above the floor, compared with one half. -/
theorem compareHalf_eq (h : 0 < r.den) :
    r.compareHalf = compare (2 * (r.value - ⌊r.value⌋₊)) 1 := by
  have hd : (0 : ℚ) < r.den := by exact_mod_cast h
  have hv : 2 * (r.value - ⌊r.value⌋₊) = (2 * (r.num % r.den) : ℕ) / (r.den : ℚ) := by
    rw [← floor_eq, floor, value, eq_div_iff hd.ne']
    have hm : ((r.den * (r.num / r.den) + r.num % r.den : ℕ) : ℚ) = r.num := by
      rw [Nat.div_add_mod]
    push_cast at hm ⊢
    field_simp
    linarith
  rw [compareHalf, hv]
  rcases Nat.lt_trichotomy (2 * (r.num % r.den)) r.den with hlt | heq | hgt
  · rw [compare_lt_iff_lt.2 hlt, eq_comm, compare_lt_iff_lt, div_lt_one hd]
    exact_mod_cast hlt
  · rw [compare_eq_iff_eq.2 heq, eq_comm, compare_eq_iff_eq, div_eq_one_iff_eq hd.ne']
    exact_mod_cast heq
  · rw [compare_gt_iff_gt.2 hgt, eq_comm, compare_gt_iff_gt, one_lt_div hd]
    exact_mod_cast hgt

theorem nearest_congr (hr : 0 < r.den) (hs : 0 < s.den) (h : r.value = s.value) :
    r.nearest = s.nearest := by
  simp only [nearest, floor_eq, compareHalf_eq hr, compareHalf_eq hs, h]

theorem nearest_eq_of_value_eq (h : 0 < r.den) {n : ℕ} (hv : r.value = n) : r.nearest = n := by
  have hc : compare (2 * ((n : ℚ) - n)) 1 = .lt := by
    rw [compare_lt_iff_lt]
    simp
  simp only [nearest, floor_eq, compareHalf_eq h, hv, Nat.floor_natCast, hc]

theorem nearest_eq_zero (h : 0 < r.den) (hv : r.value < 1 / 2) : r.nearest = 0 := by
  have hf : ⌊r.value⌋₊ = 0 := Nat.floor_eq_zero.2 (by linarith)
  have hc : compare (2 * (r.value - (0 : ℕ))) 1 = .lt := by
    rw [compare_lt_iff_lt, Nat.cast_zero]
    linarith
  simp only [nearest, floor_eq, compareHalf_eq h, hf, hc]

theorem floor_le_nearest (r : Fraction) : r.floor ≤ r.nearest := by
  unfold nearest
  split
  · exact Nat.le_refl _
  · exact Nat.le_add_right ..
  · exact Nat.le_add_right ..

theorem value_pos (hn : 0 < r.num) (hd : 0 < r.den) : 0 < r.value := by
  have hn' : (0 : ℚ) < r.num := by exact_mod_cast hn
  have hd' : (0 : ℚ) < r.den := by exact_mod_cast hd
  exact div_pos hn' hd'

/-- The sizes of numerator and denominator leave two binary logarithms to choose from. -/
theorem log_bounds (hn : 0 < r.num) (hd : 0 < r.den) :
    (r.num.log2 : ℤ) - r.den.log2 - 1 ≤ Int.log 2 r.value ∧
      Int.log 2 r.value ≤ (r.num.log2 : ℤ) - r.den.log2 := by
  have hv := value_pos hn hd
  have hd' : (0 : ℚ) < r.den := by exact_mod_cast hd
  have hn₁ : (2 : ℚ) ^ r.num.log2 ≤ r.num := by exact_mod_cast Nat.log2_self_le hn.ne'
  have hn₂ : (r.num : ℚ) < 2 ^ (r.num.log2 + 1) := by exact_mod_cast Nat.lt_log2_self
  have hd₁ : (2 : ℚ) ^ r.den.log2 ≤ r.den := by exact_mod_cast Nat.log2_self_le hd.ne'
  have hd₂ : (r.den : ℚ) < 2 ^ (r.den.log2 + 1) := by exact_mod_cast Nat.lt_log2_self
  constructor
  · rw [← Int.zpow_le_iff_le_log one_lt_two hv, value, le_div_iff₀ hd', Nat.cast_ofNat]
    calc (2 : ℚ) ^ ((r.num.log2 : ℤ) - r.den.log2 - 1) * r.den
        ≤ 2 ^ ((r.num.log2 : ℤ) - r.den.log2 - 1) * 2 ^ (r.den.log2 + 1) := by gcongr
      _ = 2 ^ r.num.log2 := by
          rw [← zpow_natCast, ← zpow_natCast, ← zpow_add₀ two_ne_zero]
          congr 1
          push_cast
          ring
      _ ≤ r.num := hn₁
  · rw [← Int.lt_add_one_iff, ← Int.lt_zpow_iff_log_lt one_lt_two hv, value, div_lt_iff₀ hd',
      Nat.cast_ofNat]
    calc (r.num : ℚ) < 2 ^ (r.num.log2 + 1) := hn₂
      _ = (2 : ℚ) ^ ((r.num.log2 : ℤ) - r.den.log2 + 1) * 2 ^ r.den.log2 := by
          rw [← zpow_natCast, ← zpow_natCast, ← zpow_add₀ two_ne_zero]
          congr 1
          push_cast
          ring
      _ ≤ 2 ^ ((r.num.log2 : ℤ) - r.den.log2 + 1) * r.den := by gcongr

theorem binaryExponent_eq (hn : 0 < r.num) (hd : 0 < r.den) :
    r.binaryExponent = max (Int.log 2 r.value - 52) leastExponent := by
  have hv := value_pos hn hd
  obtain ⟨h₁, h₂⟩ := log_bounds hn hd
  have hfits (low : ℤ) : (r.timesPow 2 (-low)).floor < 2 ^ 53 ↔ Int.log 2 r.value < low + 53 := by
    rw [floor_eq, Nat.floor_lt' (by norm_num), value_timesPow,
      ← Int.lt_zpow_iff_log_lt one_lt_two hv, Nat.cast_ofNat, zpow_neg, ← div_eq_mul_inv,
      div_lt_iff₀ (by positivity), zpow_add₀ two_ne_zero, mul_comm]
    norm_num
  simp only [binaryExponent, Nat.pow_eq, hfits]
  split
  · omega
  · omega

theorem floatBits_congr (hr : 0 < r.den) (hs : 0 < s.den) (h : r.value = s.value) :
    r.floatBits = s.floatBits := by
  have hz (q : Fraction) (hq : 0 < q.den) : q.num = 0 ↔ q.value = 0 := by
    have hq' : (q.den : ℚ) ≠ 0 := by exact_mod_cast hq.ne'
    rw [value, div_eq_zero_iff]
    simp [hq']
  by_cases h0 : r.num = 0
  · have h0' : s.num = 0 := by rw [hz s hs, ← h, ← hz r hr, h0]
    simp only [floatBits, h0, h0', if_true]
  · have h0' : s.num ≠ 0 := by rwa [Ne, hz s hs, ← h, ← hz r hr]
    have he : r.binaryExponent = s.binaryExponent := by
      rw [binaryExponent_eq (by omega) hr, binaryExponent_eq (by omega) hs, h]
    have hm : (r.timesPow 2 (-s.binaryExponent)).nearest =
        (s.timesPow 2 (-s.binaryExponent)).nearest := by
      apply nearest_congr (den_timesPow_pos hr two_pos _) (den_timesPow_pos hs two_pos _)
      rw [value_timesPow, value_timesPow, h]
    simp only [floatBits, h0, h0', he, hm, if_false]

/-- Less than half of the least float is rounded to zero. -/
theorem floatBits_eq_zero (hn : 0 < r.num) (hd : 0 < r.den)
    (h : Int.log 2 r.value < leastExponent - 1) : r.floatBits = 0 := by
  have he : r.binaryExponent = leastExponent := by
    rw [binaryExponent_eq hn hd]
    omega
  have hs : (r.timesPow 2 (-leastExponent)).value < 1 / 2 := by
    rw [value_timesPow, Nat.cast_ofNat, zpow_neg, ← div_eq_mul_inv, div_lt_iff₀ (by positivity)]
    calc r.value < ((2 : ℕ) : ℚ) ^ (leastExponent - 1) :=
          (Int.lt_zpow_iff_log_lt one_lt_two (value_pos hn hd)).2 h
      _ = 1 / 2 * 2 ^ leastExponent := by
          rw [Nat.cast_ofNat, zpow_sub_one₀ two_ne_zero, one_div, mul_comm]
  have hm := nearest_eq_zero (den_timesPow_pos hd two_pos _) hs
  simp only [floatBits, Nat.ne_of_gt hn, he, if_false, hm, Int.sub_self]
  rfl

/-- What is past the largest float is rounded to infinity. -/
theorem floatBits_eq_infinityBits (hn : 0 < r.num) (hd : 0 < r.den)
    (h : 1024 ≤ Int.log 2 r.value) : r.floatBits = infinityBits := by
  have he : r.binaryExponent = Int.log 2 r.value - 52 := by
    rw [binaryExponent_eq hn hd, leastExponent]
    omega
  have hs : ((2 ^ 52 : ℕ) : ℚ) ≤ (r.timesPow 2 (-r.binaryExponent)).value := by
    rw [value_timesPow, he, Nat.cast_ofNat, zpow_neg, ← div_eq_mul_inv, le_div_iff₀ (by positivity)]
    calc ((2 ^ 52 : ℕ) : ℚ) * 2 ^ (Int.log 2 r.value - 52)
        = 2 ^ (52 : ℤ) * 2 ^ (Int.log 2 r.value - 52) := by norm_num
      _ = ((2 : ℕ) : ℚ) ^ Int.log 2 r.value := by
          rw [← zpow_add₀ two_ne_zero, Nat.cast_ofNat]
          congr 1
          ring
      _ ≤ r.value := Int.zpow_log_le_self one_lt_two (value_pos hn hd)
  have hm : 2 ^ 52 ≤ (r.timesPow 2 (-r.binaryExponent)).nearest :=
    ((Nat.le_floor hs).trans_eq (floor_eq _).symm).trans (floor_le_nearest _)
  have hk : 2046 ≤ (r.binaryExponent - leastExponent).toNat := by
    rw [he, leastExponent]
    omega
  simp only [floatBits, Nat.ne_of_gt hn, if_false, Nat.pow_eq, infinityBits]
  rw [Nat.min_eq_right]
  calc 2047 * 2 ^ 52 = 2046 * 2 ^ 52 + 2 ^ 52 := by norm_num
    _ ≤ (r.binaryExponent - leastExponent).toNat * 2 ^ 52 +
        (r.timesPow 2 (-r.binaryExponent)).nearest := by gcongr

end Fraction

namespace Binary

variable {b : Binary}

theorem value_magnitude (b : Binary) : b.magnitude.value = b.significand * 2 ^ b.exponent := by
  rw [magnitude, Fraction.value_timesPow]
  simp [Fraction.value, Fraction.ofNat]

theorem den_magnitude_pos (b : Binary) : 0 < b.magnitude.den :=
  Fraction.den_timesPow_pos Nat.one_pos two_pos _

theorem lowBits_lt (h : b.IsCanonical) : b.lowBits < infinityBits := by
  have h₁ := h.significand_lt
  have h₂ := h.exponent_le
  simp only [lowBits, infinityBits, leastExponent, Nat.pow_eq]
  omega

theorem log_magnitude (h : 0 < b.significand) :
    Int.log 2 b.magnitude.value = b.significand.log2 + b.exponent := by
  have hv : 0 < b.magnitude.value :=
    Fraction.value_pos (Fraction.num_timesPow_pos h two_pos _) (den_magnitude_pos b)
  have hz : (0 : ℚ) < 2 ^ b.exponent := by positivity
  apply le_antisymm
  · rw [← Int.lt_add_one_iff, ← Int.lt_zpow_iff_log_lt one_lt_two hv, Nat.cast_ofNat,
      value_magnitude, add_right_comm, zpow_add₀ two_ne_zero]
    gcongr
    exact_mod_cast Nat.lt_log2_self
  · rw [← Int.zpow_le_iff_le_log one_lt_two hv, Nat.cast_ofNat, value_magnitude,
      zpow_add₀ two_ne_zero]
    gcongr
    exact_mod_cast Nat.log2_self_le h.ne'

theorem floatBits_magnitude (h : b.IsCanonical) : b.magnitude.floatBits = b.lowBits := by
  have hd := den_magnitude_pos b
  by_cases h0 : b.significand = 0
  · have hn : b.magnitude.num = 0 := by
      rw [magnitude, Fraction.ofNat, h0]
      cases b.exponent with
      | ofNat e => exact Nat.zero_mul _
      | negSucc e => rfl
    have he : b.exponent = leastExponent := by
      rcases h.full with hf | hf
      · omega
      · exact hf
    simp [Fraction.floatBits, hn, lowBits, h0, he]
  · have hp : 0 < b.significand := by omega
    have hn : 0 < b.magnitude.num := Fraction.num_timesPow_pos hp two_pos _
    obtain ⟨h₁, h₂⟩ := Number.log2_significand h hp
    have h₃ := h.le_exponent
    have he : b.magnitude.binaryExponent = b.exponent := by
      rw [Fraction.binaryExponent_eq hn hd, log_magnitude hp]
      omega
    have hm : (b.magnitude.timesPow 2 (-b.exponent)).nearest = b.significand := by
      apply Fraction.nearest_eq_of_value_eq (Fraction.den_timesPow_pos hd two_pos _)
      rw [Fraction.value_timesPow, value_magnitude, Nat.cast_ofNat, mul_assoc,
        ← zpow_add₀ two_ne_zero, add_neg_cancel, zpow_zero, mul_one]
    have hlt := lowBits_lt h
    simp only [Fraction.floatBits, Nat.ne_of_gt hn, he, hm, if_false, Nat.pow_eq]
    exact Nat.min_eq_left hlt.le

end Binary

namespace Decimal

/-- Eleven steps from `2 ^ 93` to `10 ^ 28` span the floats. -/
theorem two_pow_le_ten_pow : ((2 : ℚ) ^ 93) ^ 11 ≤ ((10 : ℚ) ^ 28) ^ 11 := by
  gcongr
  norm_num

theorem value_magnitude (d : Decimal) : d.magnitude.value = d.digits * 10 ^ d.exponent := by
  rw [magnitude, Fraction.value_timesPow]
  simp [Fraction.value, Fraction.ofNat]

theorem den_magnitude_pos (d : Decimal) : 0 < d.magnitude.den :=
  Fraction.den_timesPow_pos Nat.one_pos (by decide) _

variable {d : Decimal}

theorem num_magnitude_pos (h : d.digits ≠ 0) : 0 < d.magnitude.num :=
  Fraction.num_timesPow_pos (Nat.pos_of_ne_zero h) (by decide) _

theorem value_lt (d : Decimal) : d.magnitude.value < 10 ^ d.places := by
  have hl : (d.digits : ℚ) < 10 ^ (Nat.toDigits 10 d.digits).length := by
    exact_mod_cast (Nat.length_toDigits_le_iff (by decide) Nat.length_toDigits_pos).1 le_rfl
  rw [value_magnitude, places, zpow_add₀ (by norm_num), zpow_natCast]
  gcongr

theorem le_value (h : d.digits ≠ 0) : 10 ^ (d.places - 1) ≤ d.magnitude.value := by
  have hl : 10 ^ ((Nat.toDigits 10 d.digits).length - 1) ≤ d.digits := by
    by_contra hlt
    have hp := @Nat.length_toDigits_pos 10 d.digits
    rcases Nat.eq_zero_or_pos ((Nat.toDigits 10 d.digits).length - 1) with h0 | h0
    · rw [h0] at hlt
      omega
    · have := (Nat.length_toDigits_le_iff (by decide) h0).2 (Nat.lt_of_not_le hlt)
      omega
  have hp := @Nat.length_toDigits_pos 10 d.digits
  rw [value_magnitude, places, show ((Nat.toDigits 10 d.digits).length : ℤ) + d.exponent - 1 =
    ((Nat.toDigits 10 d.digits).length - 1 : ℕ) + d.exponent by omega,
    zpow_add₀ (by norm_num), zpow_natCast]
  gcongr
  exact_mod_cast hl

theorem floatBits_of_places_lt (h : d.digits ≠ 0) (hp : d.places < -323) :
    d.magnitude.floatBits = 0 := by
  have hn := num_magnitude_pos h
  have hd := den_magnitude_pos d
  apply Fraction.floatBits_eq_zero hn hd
  rw [← Int.lt_zpow_iff_log_lt one_lt_two (Fraction.value_pos hn hd), Nat.cast_ofNat]
  calc d.magnitude.value < 10 ^ d.places := value_lt d
    _ ≤ 10 ^ (-(16 + (28 * 11 : ℕ)) : ℤ) := by
        gcongr
        · norm_num
        · omega
    _ ≤ 2 ^ (-(52 + (93 * 11 : ℕ)) : ℤ) := by
        rw [zpow_neg, zpow_neg]
        gcongr
        rw [zpow_add₀ (by norm_num), zpow_add₀ (by norm_num), zpow_natCast, zpow_natCast, pow_mul,
          pow_mul]
        gcongr ?_ * ?_
        · norm_num
        · exact two_pow_le_ten_pow
    _ = 2 ^ (leastExponent - 1) := rfl

theorem floatBits_of_lt_places (h : d.digits ≠ 0) (hp : 309 < d.places) :
    d.magnitude.floatBits = infinityBits := by
  have hn := num_magnitude_pos h
  have hd := den_magnitude_pos d
  apply Fraction.floatBits_eq_infinityBits hn hd
  rw [← Int.zpow_le_iff_le_log one_lt_two (Fraction.value_pos hn hd), Nat.cast_ofNat]
  calc (2 : ℚ) ^ (1024 : ℤ) = 2 ^ (1 + (93 * 11 : ℕ) : ℤ) := rfl
    _ ≤ 10 ^ (1 + (28 * 11 : ℕ) : ℤ) := by
        rw [zpow_add₀ (by norm_num), zpow_add₀ (by norm_num), zpow_natCast, zpow_natCast, pow_mul,
          pow_mul]
        gcongr ?_ * ?_
        · norm_num
        · exact two_pow_le_ten_pow
    _ ≤ 10 ^ (d.places - 1) := by
        gcongr
        · norm_num
        · omega
    _ ≤ d.magnitude.value := le_value h

/-- Numbers of too few or too many places are rounded like all others. -/
theorem toFloat_eq (d : Decimal) : d.toFloat = d.magnitude.toFloat d.negative := by
  have hz : (Fraction.ofNat 0).floatBits = 0 := rfl
  have hi : ((Fraction.ofNat 1).timesPow 2 1024).floatBits = infinityBits := by decide +kernel
  by_cases h : d.digits = 0
  · have hn : d.magnitude.num = 0 := by
      rw [magnitude, Fraction.ofNat, h]
      cases d.exponent with
      | ofNat e => exact Nat.zero_mul _
      | negSucc e => rfl
    have hm : d.magnitude.floatBits = 0 := by simp [Fraction.floatBits, hn]
    simp only [toFloat, h, true_or, if_true, Fraction.toFloat, hz, hm]
  · rcases Int.lt_or_le d.places (-323) with hlt | hle
    · simp only [toFloat, hlt, or_true, if_true, Fraction.toFloat, hz, floatBits_of_places_lt h hlt]
    · rcases Int.lt_or_le 309 d.places with hgt | hge
      · simp only [toFloat, h, Int.not_lt.2 hle, or_self, if_false, hgt, if_true, Fraction.toFloat,
          hi, floatBits_of_lt_places h hgt]
      · simp only [toFloat, h, Int.not_lt.2 hle, or_self, if_false, Int.not_lt.2 hge]

theorem toFloat_congr {c d : Decimal} (hn : c.negative = d.negative)
    (hv : c.magnitude.value = d.magnitude.value) : c.toFloat = d.toFloat := by
  rw [toFloat_eq, toFloat_eq, hn, Fraction.toFloat, Fraction.toFloat,
    Fraction.floatBits_congr (den_magnitude_pos c) (den_magnitude_pos d) hv]

theorem value_exact (b : Binary) : (exact b).magnitude.value = b.magnitude.value := by
  rw [value_magnitude, Binary.value_magnitude]
  unfold exact
  split
  · next e he =>
    rw [he]
    simp
  · next e he =>
    have hp : (10 : ℚ) ^ (e + 1) = 5 ^ (e + 1) * 2 ^ (e + 1) := by
      rw [← mul_pow]
      norm_num
    rw [he, zpow_negSucc, zpow_negSucc, hp, Nat.pow_eq]
    push_cast
    field_simp

/-- The shortest digits read back. -/
theorem floatBits_shortest (b : Binary) :
    (shortest b).magnitude.floatBits = b.magnitude.floatBits := by
  simp only [shortest]
  split
  · next d h =>
    obtain ⟨n, -, hn⟩ := List.exists_of_findSome?_eq_some h
    have hd := List.find?_some hn
    change d.magnitude.floatBits = _
    simpa using hd
  · exact Fraction.floatBits_congr (den_magnitude_pos _) (Binary.den_magnitude_pos b) (value_exact b)

theorem negative_shortest (b : Binary) : (shortest b).negative = b.negative := by
  simp only [shortest]
  split
  · rfl
  · unfold exact
    split
    · rfl
    · rfl

/-- Every finite float is read back from its shortest digits. -/
theorem toFloat_shortest {x : Float} {b : Binary} (h : Binary.ofFloat? x = some b) :
    (shortest b).toFloat = x := by
  rw [toFloat_eq, Fraction.toFloat, floatBits_shortest, negative_shortest,
    Binary.floatBits_magnitude (Binary.isCanonical_of_ofFloat? h), Nat.add_comm,
    ← Binary.toNat_toBits_of_ofFloat? h, UInt64.ofNat_toNat, ofBits_toBits]

end Decimal

end Sketch
