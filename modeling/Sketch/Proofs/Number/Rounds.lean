import Sketch.Proofs.Number.Arithmetic

/-!
The four operations on finite floats, and their order, by the numbers that the floats stand for. A
result is the rounded number, or infinite where that is past the largest float.
-/

open Float.Model Float.Model.UnpackedFloat

namespace Sketch

/-- The first power of two past all floats. -/
@[irreducible] def pastLargest : ℚ := 2 ^ 1024

theorem pastLargest_pos : 0 < pastLargest := by
  rw [pastLargest]
  positivity

/-! ### Packing -/

namespace Binary

variable {b : Binary}

theorem pack_of_lt (h : b.IsCanonical) (hlt : b.significand < 2 ^ 52) :
    UnpackedFloat.pack .binary64 b.unpacked =
      packComponents .binary64 (signOf b.negative) 0#11 (BitVec.ofNat 52 b.significand) := by
  have he : b.exponent = leastExponent := h.full.resolve_left (by omega)
  unfold unpacked
  split
  · next hpos =>
    have hl : b.significand.log2 < 52 := (Nat.log2_lt hpos.ne').2 hlt
    rw [UnpackedFloat.pack, he]
    dsimp only
    rw [if_neg (by decide), if_neg (by simp [Format.mantissaBits]; omega)]
  · next h0 =>
    have h0 : b.significand = 0 := by omega
    rw [h0]
    rfl

theorem log2_of_le (h : b.IsScaled) (hge : 2 ^ 52 ≤ b.significand) : b.significand.log2 = 52 := by
  have := h.significand_lt
  rw [Nat.log2_eq_iff (by omega)]
  omega

theorem pack_of_le (h : b.IsCanonical) (hge : 2 ^ 52 ≤ b.significand) :
    UnpackedFloat.pack .binary64 b.unpacked =
      packComponents .binary64 (signOf b.negative)
        (BitVec.ofNat 11 (b.exponent - leastExponent + 1).toNat)
        (BitVec.ofNat 52 b.significand) := by
  have h₂ := h.le_exponent
  have h₃ := h.exponent_le
  have hx : (b.exponent + Format.binary64.exponentBias + (52 : ℕ)).toNat =
      (b.exponent - leastExponent + 1).toNat := by
    change (b.exponent + 1023 + 52).toNat = _
    rw [leastExponent]
    omega
  rw [unpacked, dif_pos (by omega), UnpackedFloat.pack]
  dsimp only
  rw [log2_of_le h.isScaled hge, hx, if_neg, if_pos (by rfl)]
  rw [leastExponent]
  change ¬ 2048 ≤ _
  omega

theorem ofFloat?_pack (h : b.IsCanonical) :
    ofFloat? (.ofModel (Float.Model.pack b.unpacked)) = some b := by
  have h₁ := h.significand_lt
  have h₂ := h.le_exponent
  have h₃ := h.exponent_le
  rcases Nat.lt_or_ge b.significand (2 ^ 52) with hlt | hge
  · have he : b.exponent = leastExponent := h.full.resolve_left (by omega)
    have hm : (BitVec.ofNat 52 b.significand).toNat = b.significand := by simpa using hlt
    rw [ofFloat?_eq (x := .ofModel (Float.Model.pack b.unpacked)) (pack_of_lt h hlt), ofFields?]
    simp [hm, ← he]
  · have hm : (BitVec.ofNat 52 b.significand).toNat = b.significand - 2 ^ 52 := by
      rw [BitVec.toNat_ofNat]
      omega
    have hleast : leastExponent = -1074 := rfl
    have he : (BitVec.ofNat 11 (b.exponent - leastExponent + 1).toNat).toNat =
        (b.exponent - leastExponent + 1).toNat := by
      rw [BitVec.toNat_ofNat]
      omega
    have hs : 2 ^ 52 + (b.significand - 2 ^ 52) = b.significand := by omega
    have hx : ((b.exponent - leastExponent + 1).toNat : ℤ) - 1 + leastExponent = b.exponent := by
      omega
    rw [ofFloat?_eq (x := .ofModel (Float.Model.pack b.unpacked)) (pack_of_le h hge), ofFields?,
      hm, he, if_neg (by omega), if_neg (by omega), hs, hx]

theorem unpack_pack_of_lt (h : b.IsScaled) (he : 971 < b.exponent) :
    (Float.Model.pack b.unpacked).unpack = .infinity (signOf b.negative) := by
  have hleast : leastExponent = -1074 := rfl
  have hfull : 2 ^ 52 ≤ b.significand := h.full.resolve_right (by omega)
  have hp : UnpackedFloat.pack .binary64 b.unpacked =
      packedInfinity .binary64 (signOf b.negative) := by
    rw [unpacked, dif_pos (by omega), UnpackedFloat.pack]
    dsimp only
    rw [if_pos]
    change 2048 ≤ (b.exponent + 1023 + 52).toNat + 1
    omega
  change UnpackedFloat.unpack .binary64 (UnpackedFloat.pack .binary64 b.unpacked) = _
  rw [hp]
  cases b.negative with
  | true => rfl
  | false => rfl

/-! ### The range of the floats -/

theorem abs_value_lt (h : b.IsCanonical) : |b.value| < pastLargest := by
  have hs : (b.significand : ℚ) < 2 ^ 53 := by exact_mod_cast h.significand_lt
  rw [abs_value, value_magnitude]
  calc (b.significand : ℚ) * 2 ^ b.exponent < 2 ^ 53 * 2 ^ b.exponent := by gcongr
    _ ≤ 2 ^ 53 * 2 ^ (971 : ℤ) := by
        gcongr
        · norm_num
        · exact h.exponent_le
    _ = pastLargest := by
        rw [pastLargest, ← zpow_natCast, ← zpow_natCast, ← zpow_add₀ two_ne_zero]
        congr 1

theorem le_abs_value (h : b.IsScaled) (he : 971 < b.exponent) : pastLargest ≤ |b.value| := by
  have hleast : leastExponent = -1074 := rfl
  have hfull : 2 ^ 52 ≤ b.significand := h.full.resolve_right (by omega)
  have hs : (2 : ℚ) ^ 52 ≤ b.significand := by exact_mod_cast hfull
  rw [abs_value, value_magnitude]
  calc pastLargest = 2 ^ 52 * 2 ^ (972 : ℤ) := by
        rw [pastLargest, ← zpow_natCast, ← zpow_natCast, ← zpow_add₀ two_ne_zero]
        congr 1
    _ ≤ (b.significand : ℚ) * 2 ^ b.exponent := by
        gcongr
        · norm_num
        · omega

end Binary

namespace Number

/-- The number that a finite float stands for. -/
def value (x : Float) : ℚ := ((Binary.ofFloat? x).map Binary.value).getD 0

theorem value_of_ofFloat? {x : Float} {b : Binary} (h : Binary.ofFloat? x = some b) :
    value x = b.value := by
  rw [value, h]
  rfl

theorem rounded_value {x : Float} (h : x.isFinite = true) : rounded (value x) = value x := by
  obtain ⟨b, hb⟩ := Binary.isFinite_iff.1 h
  rw [value_of_ofFloat? hb]
  exact Binary.rounded_value (Binary.isCanonical_of_ofFloat? hb).isScaled

theorem abs_value_lt {x : Float} (h : x.isFinite = true) : |value x| < pastLargest := by
  obtain ⟨b, hb⟩ := Binary.isFinite_iff.1 h
  rw [value_of_ofFloat? hb]
  exact Binary.abs_value_lt (Binary.isCanonical_of_ofFloat? hb)

theorem value_of_fields {x : Float} {m : ℕ} {e : ℤ} (h : Binary.ofFloat? x = some ⟨false, m, e⟩) :
    x.isFinite = true ∧ value x = m * 2 ^ e :=
  ⟨Binary.isFinite_iff.2 ⟨_, h⟩, value_of_ofFloat? h⟩

theorem value_zero : (0 : Float).isFinite = true ∧ value 0 = 0 := by
  have h : Binary.ofFloat? 0 = some ⟨false, 0, leastExponent⟩ := by decide +kernel
  obtain ⟨hf, hv⟩ := value_of_fields h
  exact ⟨hf, by rw [hv]; norm_num⟩

/-- A float that is some number but for rounding, and infinite if the rounded number is too large. -/
inductive Rounds (w : ℚ) (x : Float) : Prop
  | finite (h : x.isFinite = true) (hv : value x = rounded w)
  | above (h : x.toModel.unpack = .infinity .positive) (hw : pastLargest ≤ rounded w)
  | below (h : x.toModel.unpack = .infinity .negative) (hw : rounded w ≤ -pastLargest)

theorem rounds_pack {w : ℚ} {u : UnpackedFloat} (h : RoundsTo w u) :
    Rounds w (.ofModel (Float.Model.pack u)) := by
  obtain ⟨b, hb, rfl, hv⟩ := h
  rcases le_or_gt b.exponent 971 with he | he
  · have hx := Binary.ofFloat?_pack ⟨hb.significand_lt, hb.le_exponent, he, hb.full⟩
    exact .finite (Binary.isFinite_iff.2 ⟨b, hx⟩) ((value_of_ofFloat? hx).trans hv)
  · have hu := Binary.unpack_pack_of_lt hb he
    have hle := Binary.le_abs_value hb he
    rw [Binary.abs_value] at hle
    have hv := Binary.value_eq b ▸ hv
    cases hs : b.negative with
    | true =>
      rw [hs] at hu
      rw [if_pos hs] at hv
      exact .below hu (hv ▸ neg_le_neg hle)
    | false =>
      rw [hs] at hu
      rw [if_neg (by simp [hs])] at hv
      exact .above hu (hv ▸ hle)

section Operations

variable {x y : Float}

theorem exists_unpack_eq (h : x.isFinite = true) :
    ∃ b : Binary, b.IsCanonical ∧ x.toModel.unpack = b.unpacked ∧ value x = b.value := by
  obtain ⟨b, hb⟩ := Binary.isFinite_iff.1 h
  exact ⟨b, Binary.isCanonical_of_ofFloat? hb, Binary.unpack_of_ofFloat? hb, value_of_ofFloat? hb⟩

theorem rounds_add (hx : x.isFinite = true) (hy : y.isFinite = true) :
    Rounds (value x + value y) (x + y) := by
  obtain ⟨a, ha, hxa, hxv⟩ := exists_unpack_eq hx
  obtain ⟨b, hb, hyb, hyv⟩ := exists_unpack_eq hy
  have h := rounds_pack (RoundsTo.add ha.isScaled hb.isScaled)
  rwa [← hxa, ← hyb, ← hxv, ← hyv] at h

theorem rounds_sub (hx : x.isFinite = true) (hy : y.isFinite = true) :
    Rounds (value x - value y) (x - y) := by
  obtain ⟨a, ha, hxa, hxv⟩ := exists_unpack_eq hx
  obtain ⟨b, hb, hyb, hyv⟩ := exists_unpack_eq hy
  have h := rounds_pack (RoundsTo.sub ha.isScaled hb.isScaled)
  rwa [← hxa, ← hyb, ← hxv, ← hyv] at h

theorem rounds_mul (hx : x.isFinite = true) (hy : y.isFinite = true) :
    Rounds (value x * value y) (x * y) := by
  obtain ⟨a, ha, hxa, hxv⟩ := exists_unpack_eq hx
  obtain ⟨b, hb, hyb, hyv⟩ := exists_unpack_eq hy
  have h := rounds_pack (RoundsTo.mul ha.isScaled hb.isScaled)
  rwa [← hxa, ← hyb, ← hxv, ← hyv] at h

theorem rounds_div (hx : x.isFinite = true) (hy : y.isFinite = true) (h0 : value y ≠ 0) :
    Rounds (value x / value y) (x / y) := by
  obtain ⟨a, ha, hxa, hxv⟩ := exists_unpack_eq hx
  obtain ⟨b, hb, hyb, hyv⟩ := exists_unpack_eq hy
  have hpos : 0 < b.significand := by
    by_contra hb0
    exact h0 (hyv.trans (Binary.value_eq_zero hb0))
  have h := rounds_pack (RoundsTo.div a hpos)
  rwa [← hxa, ← hyb, ← hxv, ← hyv] at h

end Operations

/-! ### Order -/

theorem magnitude_lt {a b : Binary} (ha : a.IsCanonical) (hb : b.IsCanonical)
    (he : a.exponent < b.exponent) : a.magnitude.value < b.magnitude.value := by
  have hs : (a.significand : ℚ) < 2 ^ 53 := by exact_mod_cast ha.significand_lt
  have hle := ha.le_exponent
  have hfull : (2 : ℚ) ^ 52 ≤ b.significand := by exact_mod_cast hb.full.resolve_right (by omega)
  rw [Binary.value_magnitude, Binary.value_magnitude]
  calc (a.significand : ℚ) * 2 ^ a.exponent < 2 ^ 53 * 2 ^ a.exponent := by gcongr
    _ = 2 ^ 52 * 2 ^ (a.exponent + 1) := by
        rw [zpow_add_one₀ two_ne_zero]
        ring
    _ ≤ 2 ^ 52 * 2 ^ b.exponent := by
        gcongr
        · norm_num
        · omega
    _ ≤ b.significand * 2 ^ b.exponent := by gcongr

/-- The exponents decide, and between equal ones the significands. -/
theorem compare_magnitude {a b : Binary} (ha : a.IsCanonical) (hb : b.IsCanonical) :
    (compare a.exponent b.exponent).then (compare a.significand b.significand) =
      compare a.magnitude.value b.magnitude.value := by
  rcases lt_trichotomy a.exponent b.exponent with he | he | he
  · rw [compare_lt_iff_lt.2 he, compare_lt_iff_lt.2 (magnitude_lt ha hb he)]
    rfl
  · have hp : (0 : ℚ) < 2 ^ b.exponent := by positivity
    rw [compare_eq_iff_eq.2 he, Binary.value_magnitude, Binary.value_magnitude, he]
    change compare a.significand b.significand = _
    rcases lt_trichotomy a.significand b.significand with hs | hs | hs
    · have hs' : (a.significand : ℚ) < b.significand := by exact_mod_cast hs
      rw [compare_lt_iff_lt.2 hs, compare_lt_iff_lt.2 (mul_lt_mul_of_pos_right hs' hp)]
    · rw [compare_eq_iff_eq.2 hs, hs, compare_eq_iff_eq.2 rfl]
    · have hs' : (b.significand : ℚ) < a.significand := by exact_mod_cast hs
      rw [compare_gt_iff_gt.2 hs, compare_gt_iff_gt.2 (mul_lt_mul_of_pos_right hs' hp)]
  · rw [compare_gt_iff_gt.2 he, compare_gt_iff_gt.2 (magnitude_lt hb ha he)]
    rfl

theorem compare_neg (u v : ℚ) : compare (-u) (-v) = (compare u v).swap := by
  rcases lt_trichotomy u v with h | h | h
  · rw [compare_lt_iff_lt.2 h, compare_gt_iff_gt.2 (neg_lt_neg h)]
    rfl
  · rw [compare_eq_iff_eq.2 h, compare_eq_iff_eq.2 (congrArg _ h)]
    rfl
  · rw [compare_gt_iff_gt.2 h, compare_lt_iff_lt.2 (neg_lt_neg h)]
    rfl

theorem compare_unpacked {a b : Binary} (ha : a.IsCanonical) (hb : b.IsCanonical) :
    a.unpacked.compare b.unpacked = some (compare a.value b.value) := by
  by_cases ha0 : 0 < a.significand
  · have hpos := Binary.magnitude_pos ha0
    by_cases hb0 : 0 < b.significand
    · have hpos' := Binary.magnitude_pos hb0
      rw [Binary.unpacked_of_pos ha0, Binary.unpacked_of_pos hb0, Binary.value_eq a,
        Binary.value_eq b]
      cases a.negative with
      | true =>
        cases b.negative with
        | true =>
          rw [if_pos rfl, if_pos rfl, compare_neg, ← compare_magnitude ha hb]
          rfl
        | false =>
          rw [if_pos rfl, if_neg Bool.false_ne_true, compare_lt_iff_lt.2 (by linarith)]
          rfl
      | false =>
        cases b.negative with
        | true =>
          rw [if_pos rfl, if_neg Bool.false_ne_true, compare_gt_iff_gt.2 (by linarith)]
          rfl
        | false =>
          rw [if_neg Bool.false_ne_true, if_neg Bool.false_ne_true, ← compare_magnitude ha hb]
          rfl
    · rw [Binary.unpacked_of_pos ha0, Binary.unpacked_of_not_pos hb0, Binary.value_eq_zero hb0,
        Binary.value_eq]
      cases a.negative with
      | true =>
        rw [if_pos rfl, compare_lt_iff_lt.2 (by linarith)]
        rfl
      | false =>
        rw [if_neg Bool.false_ne_true, compare_gt_iff_gt.2 (by linarith)]
        rfl
  · rw [Binary.unpacked_of_not_pos ha0, Binary.value_eq_zero ha0]
    by_cases hb0 : 0 < b.significand
    · have hpos' := Binary.magnitude_pos hb0
      rw [Binary.unpacked_of_pos hb0, Binary.value_eq]
      cases b.negative with
      | true =>
        rw [if_pos rfl, compare_gt_iff_gt.2 (by linarith)]
        rfl
      | false =>
        rw [if_neg Bool.false_ne_true, compare_lt_iff_lt.2 (by linarith)]
        rfl
    · rw [Binary.unpacked_of_not_pos hb0, Binary.value_eq_zero hb0, compare_eq_iff_eq.2 rfl]
      rfl

section Order

variable {x y : Float}

theorem le_iff_unpack : x ≤ y ↔ x.toModel.unpack.le y.toModel.unpack = true := decide_eq_true_iff

theorem lt_iff_unpack : x < y ↔ x.toModel.unpack.lt y.toModel.unpack = true := decide_eq_true_iff

theorem le_iff (hx : x.isFinite = true) (hy : y.isFinite = true) : x ≤ y ↔ value x ≤ value y := by
  obtain ⟨a, ha, hxa, hxv⟩ := exists_unpack_eq hx
  obtain ⟨b, hb, hyb, hyv⟩ := exists_unpack_eq hy
  rw [le_iff_unpack, UnpackedFloat.le, hxa, hyb, compare_unpacked ha hb, hxv, hyv, Option.any_some,
    Ordering.isLE_iff_ne_gt]
  exact compare_le_iff_le

theorem lt_iff (hx : x.isFinite = true) (hy : y.isFinite = true) : x < y ↔ value x < value y := by
  obtain ⟨a, ha, hxa, hxv⟩ := exists_unpack_eq hx
  obtain ⟨b, hb, hyb, hyv⟩ := exists_unpack_eq hy
  rw [lt_iff_unpack, UnpackedFloat.lt, hxa, hyb, compare_unpacked ha hb, hxv, hyv]
  simp [compare_lt_iff_lt]

theorem lt_of_negative (hx : x.isFinite = true) (hy : y.toModel.unpack = .infinity .negative) :
    y < x := by
  obtain ⟨b, -, hb, -⟩ := exists_unpack_eq hx
  rw [lt_iff_unpack, hy, hb, Binary.unpacked]
  split
  · rfl
  · rfl

theorem lt_of_positive (hx : x.isFinite = true) (hy : y.toModel.unpack = .infinity .positive) :
    x < y := by
  obtain ⟨b, -, hb, -⟩ := exists_unpack_eq hx
  rw [lt_iff_unpack, hy, hb, Binary.unpacked]
  split
  · cases b.negative with
    | true => rfl
    | false => rfl
  · rfl

end Order

/-! ### What a rounded number keeps -/

namespace Rounds

variable {w : ℚ} {x z : Float}

theorem isFinite_of_lt (h : Rounds w x) (hw : |rounded w| < pastLargest) :
    x.isFinite = true ∧ value x = rounded w := by
  cases h with
  | finite hx hv => exact ⟨hx, hv⟩
  | above _ hle => exact absurd (hle.trans (le_abs_self _)) (not_le.2 hw)
  | below _ hle =>
    have hneg : pastLargest ≤ -rounded w := le_neg_of_le_neg hle
    exact absurd (hneg.trans (neg_le_abs _)) (not_le.2 hw)

/-- No number is rounded past a float. -/
theorem isFinite_of_abs_le (h : Rounds w x) (hz : z.isFinite = true) (hw : |w| ≤ |value z|) :
    x.isFinite = true ∧ value x = rounded w := by
  apply h.isFinite_of_lt
  calc |rounded w| = rounded |w| := abs_rounded w
    _ ≤ rounded |value z| := rounded_mono hw
    _ = |value z| := by rw [← abs_rounded, rounded_value hz]
    _ < pastLargest := abs_value_lt hz

theorem not_isNaN (h : Rounds w x) : x.isNaN = false := by
  cases h with
  | finite hx _ => exact isNaN_of_isFinite hx
  | above hx _ =>
    change x.toModel.unpack.isNaN = false
    rw [hx]
    rfl
  | below hx _ =>
    change x.toModel.unpack.isNaN = false
    rw [hx]
    rfl

end Rounds

end Number

end Sketch
