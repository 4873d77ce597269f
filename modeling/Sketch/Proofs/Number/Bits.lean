import Mathlib
import Sketch.Number.Rounding

/-!
The bits of a float beside the logical model of floats. `Binary.ofFloat?` takes apart the same three
fields that the model unpacks, so what it gives tells the float, its comparisons and its products.
-/

open Float.Model Float.Model.UnpackedFloat

namespace Sketch

def signOf : Bool → Sign
  | true => .negative
  | false => .positive

/-! ### Fields of sixty-four bits -/

section Fields

variable (s : Sign) (e : BitVec 11) (m : BitVec 52)

theorem ofBitVec_unpackSign :
    Sign.ofBitVec (unpackSign (packComponents .binary64 s e m)) = s := by
  have h : unpackSign (packComponents .binary64 s e m) = s.toBitVec := by
    ext i hi
    simp [unpackSign, packComponents]
    grind
  rw [h]
  cases s with
  | negative => rfl
  | positive => rfl

theorem toNat_packComponents :
    (packComponents .binary64 s e m).toNat =
      s.toBitVec.toNat * 2 ^ 63 + e.toNat * 2 ^ 52 + m.toNat := by
  rw [packComponents, BitVec.toNat_append, BitVec.toNat_append,
    ← Nat.shiftLeft_add_eq_or_of_lt m.isLt, ← Nat.shiftLeft_add_eq_or_of_lt e.isLt]
  simp [Nat.shiftLeft_eq]
  omega

theorem toNat_one_append : (1#1 ++ m).toNat = 2 ^ 52 + m.toNat := by
  rw [BitVec.toNat_append, ← Nat.shiftLeft_add_eq_or_of_lt m.isLt]
  rfl

theorem exists_packComponents (b : BitVec 64) : ∃ (negative : Bool) (e : BitVec 11) (m : BitVec 52),
    b = packComponents .binary64 (signOf negative) e m := by
  let sign : BitVec 1 := @unpackSign .binary64 b
  refine ⟨sign == 1#1, @unpackExponent .binary64 b, @unpackMantissa .binary64 b, ?_⟩
  have hs : (signOf (sign == 1#1)).toBitVec = @unpackSign .binary64 b := by
    change (signOf (sign == 1#1)).toBitVec = sign
    generalize sign = v
    revert v
    decide
  rw [packComponents, hs]
  ext i hi
  simp [unpackMantissa, unpackExponent, unpackSign]
  grind

end Fields

/-! ### Packing -/

/-- Unpacking loses nothing, for the one bit pattern that is not a number is fixed. -/
theorem pack_unpack (x : Float.Model) : Float.Model.pack x.unpack = x := by
  obtain ⟨bits, valid⟩ := x
  obtain ⟨negative, e, m, h⟩ := exists_packComponents bits.toBitVec
  suffices h : UnpackedFloat.pack .binary64 (UnpackedFloat.unpack .binary64 bits.toBitVec) =
      bits.toBitVec by
    simp [Float.Model.pack, Float.Model.unpack, h]
  have hm := m.isLt
  have he := e.isLt
  rw [h] at valid ⊢
  simp only [UnpackedFloat.unpack, unpackMantissa_packComponents, unpackExponent_packComponents,
    ofBitVec_unpackSign]
  split
  · next h =>
    split
    · next h' => rw [h, h']; rfl
    · next h' => exact (valid.eq_packedNaN (by simpa using h) (by simpa using h')).symm
  · next h =>
    split
    · next h0 =>
      split
      · next h' => rw [h0, h']; rfl
      · next h' =>
        have hl : m.toNat.log2 < 52 := by
          rw [Nat.log2_lt]
          · exact hm
          · simpa [← BitVec.toNat_inj] using h'
        rw [h0, UnpackedFloat.pack]
        dsimp only
        rw [if_neg (by decide), if_neg (by simp [Format.mantissaBits]; omega), BitVec.ofNat_toNat,
          BitVec.setWidth_eq]
    · next h0 =>
      have h1 : e.toNat ≠ 0 := by simpa [← BitVec.toNat_inj] using h0
      have h2 : e.toNat ≠ 2047 := by simpa [← BitVec.toNat_inj] using h
      have hl : (1#1 ++ m).toNat.log2 = 52 := by
        rw [toNat_one_append, Nat.log2_eq_iff (by omega)]
        omega
      have hx : ((e.toNat : Int) - (Format.binary64.exponentBias + (52 : Nat)) +
          Format.binary64.exponentBias + (52 : Nat)).toNat = e.toNat := by
        omega
      rw [UnpackedFloat.pack]
      dsimp only
      rw [hl, hx, if_neg (by omega), if_pos (by rfl), BitVec.ofNat_toNat, BitVec.setWidth_eq,
        toNat_one_append]
      congr 1
      rw [← BitVec.toNat_inj]
      simpa using hm

theorem ofBits_toBits (x : Float) : Float.ofBits x.toBits = x := by
  change Float.ofModel (Float.Model.pack x.toModel.unpack) = x
  rw [pack_unpack]

theorem eq_of_unpack_eq {x y : Float} (h : x.toModel.unpack = y.toModel.unpack) : x = y := by
  have hm : x.toModel = y.toModel := by rw [← pack_unpack x.toModel, h, pack_unpack]
  cases x
  cases y
  simp_all

namespace Binary

/-- What the model unpacks a finite float to. -/
def unpacked (b : Binary) : UnpackedFloat :=
  if h : 0 < b.significand then .finite (signOf b.negative) b.significand b.exponent h
  else .zero (signOf b.negative)

/-- The bits below the sign. A full significand adds its hidden bit to the exponent field. -/
def lowBits (b : Binary) : Nat := (b.exponent - leastExponent).toNat * 2 ^ 52 + b.significand

/-- The form that every finite float has once: a significand of at most 53 bits, with fewer than
that at the least exponent only. -/
structure IsCanonical (b : Binary) : Prop where
  significand_lt : b.significand < 2 ^ 53
  le_exponent : leastExponent ≤ b.exponent
  exponent_le : b.exponent ≤ 971
  full : 2 ^ 52 ≤ b.significand ∨ b.exponent = leastExponent

/-- What the three fields of a float stand for. -/
def ofFields? (negative : Bool) (e : BitVec 11) (m : BitVec 52) : Option Binary :=
  if e.toNat = 2047 then none
  else if e.toNat = 0 then some ⟨negative, m.toNat, leastExponent⟩
  else some ⟨negative, 2 ^ 52 + m.toNat, (e.toNat : Int) - 1 + leastExponent⟩

variable {x : Float} {negative : Bool} {e : BitVec 11} {m : BitVec 52}

theorem toNat_toBits (h : x.toBits.toBitVec = packComponents .binary64 (signOf negative) e m) :
    x.toBits.toNat = (if negative then signBit else 0) + e.toNat * 2 ^ 52 + m.toNat := by
  have hn : x.toBits.toNat = (packComponents .binary64 (signOf negative) e m).toNat := by
    rw [← h]
    rfl
  rw [hn, toNat_packComponents]
  cases negative with
  | true => rfl
  | false => rfl

theorem ofFloat?_eq (h : x.toBits.toBitVec = packComponents .binary64 (signOf negative) e m) :
    ofFloat? x = ofFields? negative e m := by
  have hn := toNat_toBits h
  have he := e.isLt
  have hm := m.isLt
  have hs : decide (signBit ≤ x.toBits.toNat) = negative := by
    cases negative with
    | true => simp [hn, signBit]; omega
    | false => simp [hn, signBit]; omega
  have hf : x.toBits.toNat / 2 ^ 52 % 2048 = e.toNat := by
    cases negative with
    | true => simp [signBit] at hn; omega
    | false => simp at hn; omega
  have hr : x.toBits.toNat % 2 ^ 52 = m.toNat := by
    cases negative with
    | true => simp [signBit] at hn; omega
    | false => simp at hn; omega
  simp only [ofFloat?, ofFields?, Nat.pow_eq, hf, hr, hs]

variable {b : Binary}

theorem isCanonical_of_ofFields? (h : ofFields? negative e m = some b) : b.IsCanonical := by
  have he := e.isLt
  have hm := m.isLt
  unfold ofFields? at h
  split at h
  · contradiction
  · split at h
    · obtain rfl := Option.some.inj h
      exact ⟨by simp; omega, by simp, by simp [leastExponent], .inr rfl⟩
    · obtain rfl := Option.some.inj h
      exact ⟨by simp; omega, by simp; omega, by simp [leastExponent]; omega, .inl (by simp)⟩

theorem isCanonical_of_ofFloat? (h : ofFloat? x = some b) : b.IsCanonical := by
  obtain ⟨negative, e, m, hx⟩ := exists_packComponents x.toBits.toBitVec
  rw [ofFloat?_eq hx] at h
  exact isCanonical_of_ofFields? h

theorem toNat_toBits_of_ofFloat? (h : ofFloat? x = some b) :
    x.toBits.toNat = (if b.negative then signBit else 0) + b.lowBits := by
  obtain ⟨negative, e, m, hx⟩ := exists_packComponents x.toBits.toBitVec
  rw [ofFloat?_eq hx, ofFields?] at h
  rw [toNat_toBits hx]
  split at h
  · contradiction
  · split at h
    · next h0 =>
      obtain rfl := Option.some.inj h
      simp [lowBits, h0]
    · obtain rfl := Option.some.inj h
      simp only [lowBits]
      omega

theorem unpack_of_ofFloat? (h : ofFloat? x = some b) : x.toModel.unpack = b.unpacked := by
  obtain ⟨negative, e, m, hx⟩ := exists_packComponents x.toBits.toBitVec
  rw [ofFloat?_eq hx, ofFields?] at h
  change UnpackedFloat.unpack .binary64 x.toBits.toBitVec = _
  rw [hx]
  simp only [UnpackedFloat.unpack, unpackMantissa_packComponents, unpackExponent_packComponents,
    ofBitVec_unpackSign]
  split at h
  · contradiction
  · next h1 =>
    rw [if_neg (by simpa [← BitVec.toNat_inj] using h1)]
    split at h
    · next h0 =>
      obtain rfl := Option.some.inj h
      rw [if_pos (by simpa [← BitVec.toNat_inj] using h0)]
      simp only [unpacked, ← BitVec.toNat_inj, Nat.pos_iff_ne_zero]
      split
      · next hm => simp [hm]
      · next hm =>
        rw [dif_pos (by simpa using hm), h0]
        rfl
    · next h0 =>
      obtain rfl := Option.some.inj h
      rw [if_neg (by simpa [← BitVec.toNat_inj] using h0)]
      simp only [unpacked, toNat_one_append]
      rw [dif_pos (by omega)]
      congr 1
      change (e.toNat : Int) - (1023 + 52) = _
      simp only [leastExponent]
      omega

theorem isFinite_iff : x.isFinite = true ↔ ∃ b, ofFloat? x = some b := by
  constructor
  · intro hf
    obtain ⟨negative, e, m, hx⟩ := exists_packComponents x.toBits.toBitVec
    rw [ofFloat?_eq hx, ofFields?]
    split
    · next h1 =>
      have hu : x.toModel.unpack.isFinite = true := hf
      change (UnpackedFloat.unpack .binary64 x.toBits.toBitVec).isFinite = true at hu
      rw [hx] at hu
      simp only [UnpackedFloat.unpack, unpackExponent_packComponents] at hu
      rw [if_pos (by simpa [← BitVec.toNat_inj] using h1)] at hu
      split at hu
      · contradiction
      · contradiction
    · split
      · exact ⟨_, rfl⟩
      · exact ⟨_, rfl⟩
  · rintro ⟨b, h⟩
    change x.toModel.unpack.isFinite = true
    rw [unpack_of_ofFloat? h, unpacked]
    split
    · rfl
    · rfl

end Binary

/-! ### Comparison -/

/-- The zero of either sign. -/
def IsZero : UnpackedFloat → Prop
  | .zero _ => True
  | _ => False

theorem unpacked_beq_iff (u v : UnpackedFloat) :
    u.beq v = true ↔ IsZero u ∧ IsZero v ∨ u = v ∧ u.isNaN = false := by
  have hs (s t : Sign) : compare s t = .eq ↔ s = t := by
    cases s <;> cases t <;> simp [compare]
  cases u with
  | notANumber => simp [UnpackedFloat.beq, UnpackedFloat.compare, IsZero, UnpackedFloat.isNaN]
  | infinity s =>
    cases v with
    | infinity t =>
      simp [UnpackedFloat.beq, UnpackedFloat.compare, IsZero, UnpackedFloat.isNaN, hs]
    | _ => cases s <;> simp [UnpackedFloat.beq, UnpackedFloat.compare, IsZero]
  | zero s =>
    cases v with
    | infinity t => cases t <;> simp [UnpackedFloat.beq, UnpackedFloat.compare, IsZero]
    | finite t => cases t <;> simp [UnpackedFloat.beq, UnpackedFloat.compare, IsZero]
    | _ => simp [UnpackedFloat.beq, UnpackedFloat.compare, IsZero]
  | finite s m e h =>
    cases v with
    | infinity t => cases t <;> simp [UnpackedFloat.beq, UnpackedFloat.compare, IsZero]
    | finite t n d h' =>
      cases s <;> cases t <;>
        simp [UnpackedFloat.beq, UnpackedFloat.compare, IsZero, UnpackedFloat.isNaN,
          Ordering.then_eq_eq, and_comm]
    | _ => cases s <;> simp [UnpackedFloat.beq, UnpackedFloat.compare, IsZero]

namespace Number

/-- A float without the sign of zero. -/
def unsigned (x : Float) : Float := if x == 0 then 0 else x

theorem isZero_zero : IsZero (0 : Float).toModel.unpack := trivial

theorem beq_zero_iff {x : Float} : (x == 0) = true ↔ IsZero x.toModel.unpack := by
  change x.toModel.unpack.beq (0 : Float).toModel.unpack = true ↔ _
  rw [unpacked_beq_iff]
  constructor
  · rintro (⟨h, -⟩ | ⟨h, -⟩)
    · exact h
    · rw [h]
      exact isZero_zero
  · intro h
    exact .inl ⟨h, isZero_zero⟩

theorem not_beq_zero {x : Float} (h : 0 < x) : ¬(x == 0) = true := by
  intro hz
  rw [beq_zero_iff] at hz
  have hl : (0 : Float).toModel.unpack.lt x.toModel.unpack = true := of_decide_eq_true h
  cases hu : x.toModel.unpack with
  | zero s =>
    rw [hu] at hl
    contradiction
  | _ => simp [hu, IsZero] at hz

theorem unsigned_eq_zero {x : Float} (h : (x == 0) = true) : unsigned x = 0 := if_pos h

theorem unsigned_eq_self {x : Float} (h : ¬(x == 0) = true) : unsigned x = x := if_neg h

theorem unsigned_unsigned (x : Float) : unsigned (unsigned x) = unsigned x := by
  by_cases h : (x == 0) = true
  · rw [unsigned_eq_zero h]
    rfl
  · rw [unsigned_eq_self h, unsigned_eq_self h]

theorem isNaN_unsigned (x : Float) : (unsigned x).isNaN = x.isNaN := by
  by_cases h : (x == 0) = true
  · rw [unsigned_eq_zero h]
    change false = x.toModel.unpack.isNaN
    have hz := beq_zero_iff.1 h
    cases hu : x.toModel.unpack with
    | zero => rfl
    | _ => simp [hu, IsZero] at hz
  · rw [unsigned_eq_self h]

/-- Equal floats are the same but for the sign of zero. -/
theorem beq_iff {x y : Float} :
    (x == y) = true ↔ x.isNaN = false ∧ unsigned x = unsigned y := by
  constructor
  · intro h
    rcases (unpacked_beq_iff ..).1 h with ⟨hx, hy⟩ | ⟨h, hn⟩
    · rw [unsigned_eq_zero (beq_zero_iff.2 hx), unsigned_eq_zero (beq_zero_iff.2 hy),
        ← isNaN_unsigned, unsigned_eq_zero (beq_zero_iff.2 hx)]
      exact ⟨rfl, rfl⟩
    · exact ⟨hn, by rw [eq_of_unpack_eq h]⟩
  · rintro ⟨hn, h⟩
    apply (unpacked_beq_iff ..).2
    by_cases hx : (x == 0) = true
    · have hy : (y == 0) = true := by
        by_contra hy
        rw [unsigned_eq_zero hx, unsigned_eq_self hy] at h
        rw [← h] at hy
        exact hy rfl
      exact .inl ⟨beq_zero_iff.1 hx, beq_zero_iff.1 hy⟩
    · have hy : ¬(y == 0) = true := by
        intro hy
        rw [unsigned_eq_self hx, unsigned_eq_zero hy] at h
        rw [h] at hx
        exact hx rfl
      rw [unsigned_eq_self hx, unsigned_eq_self hy] at h
      exact .inr ⟨by rw [h], hn⟩

theorem beq_trans {x y z : Float} (hxy : (x == y) = true) (hyz : (y == z) = true) :
    (x == z) = true := by
  rw [beq_iff] at hxy hyz ⊢
  exact ⟨hxy.1, hxy.2.trans hyz.2⟩

theorem isNaN_of_isFinite {x : Float} (h : x.isFinite = true) : x.isNaN = false := by
  change x.toModel.unpack.isNaN = false
  obtain ⟨b, hb⟩ := Binary.isFinite_iff.1 h
  rw [Binary.unpack_of_ofFloat? hb, Binary.unpacked]
  split
  · rfl
  · rfl

theorem unsigned_beq {x : Float} (h : x.isFinite = true) : (unsigned x == x) = true := by
  rw [beq_iff, isNaN_unsigned]
  exact ⟨isNaN_of_isFinite h, unsigned_unsigned x⟩

/-! ### Products with one -/

theorem shiftRight_ofMantissa (m n : Nat) :
    (ExtendedMantissa.ofMantissaAndAccuracy (m * 2 ^ n) .exact >>> n) =
      ExtendedMantissa.ofMantissaAndAccuracy m .exact := by
  induction n generalizing m with
  | zero =>
    rw [Nat.pow_zero, Nat.mul_one]
    rfl
  | succ n ih =>
    change ((ExtendedMantissa.ofMantissaAndAccuracy (m * 2 ^ (n + 1)) .exact) >>> n).shiftRightOne = _
    rw [Nat.pow_succ, Nat.mul_comm (2 ^ n), ← Nat.mul_assoc, ih]
    simp [ExtendedMantissa.ofMantissaAndAccuracy, ExtendedMantissa.shiftRightOne]

theorem log2_mul_pow {m : Nat} (h : 0 < m) (n : Nat) : (m * 2 ^ n).log2 = m.log2 + n := by
  induction n with
  | zero => simp
  | succ n ih =>
    have hp : m * 2 ^ n ≠ 0 := Nat.mul_ne_zero (Nat.ne_of_gt h) (by simp)
    rw [Nat.pow_succ, ← Nat.mul_assoc, Nat.mul_comm, Nat.log2_two_mul hp, ih]
    rfl

theorem log2_significand {b : Binary} (h : b.IsCanonical) (hp : 0 < b.significand) :
    b.significand.log2 ≤ 52 ∧ (b.significand.log2 = 52 ∨ b.exponent = leastExponent) := by
  have hl : b.significand.log2 < 53 := (Nat.log2_lt (Nat.ne_of_gt hp)).2 h.significand_lt
  refine ⟨by omega, h.full.imp_left fun hf => ?_⟩
  have := (Nat.le_log2 (Nat.ne_of_gt hp)).2 hf
  omega

theorem targetExponent_eq (t : Int) :
    Format.binary64.targetExponent t = max (t - 53) leastExponent := rfl

theorem shiftToTargetExponent_mul_pow {b : Binary} (h : b.IsCanonical) (hp : 0 < b.significand)
    (n : Nat) :
    shiftToTargetExponent .binary64 (b.significand * 2 ^ n) (b.exponent - n) .exact =
      (.ofMantissaAndAccuracy b.significand .exact, b.exponent) := by
  obtain ⟨hl, hf⟩ := log2_significand h hp
  have he := h.le_exponent
  have ht : Format.binary64.targetExponent
      (totalExponent (b.significand * 2 ^ n) (b.exponent - n)) = b.exponent := by
    rw [targetExponent_eq, totalExponent, log2_mul_pow hp]
    push_cast
    omega
  have hn : (b.exponent - (b.exponent - n)).toNat = n := by omega
  have hz : b.exponent - n + n = b.exponent := by omega
  rw [shiftToTargetExponent, ht, shiftToExponent, hn, shiftRight_ofMantissa, hz]

/-- A canonical significand with zeros behind it is rounded to itself. -/
theorem roundWithAccuracy_mul_pow {b : Binary} (h : b.IsCanonical) (hp : 0 < b.significand)
    (s : Sign) (n : Nat) :
    roundWithAccuracy .binary64 s (b.significand * 2 ^ n) (b.exponent - n) .exact =
      .finite s b.significand b.exponent hp := by
  have hr : (ExtendedMantissa.ofMantissaAndAccuracy b.significand .exact).roundedMantissa =
      b.significand := rfl
  have h0 := shiftToTargetExponent_mul_pow h hp 0
  rw [Nat.pow_zero, Nat.mul_one, Int.natCast_zero, Int.sub_zero] at h0
  rw [roundWithAccuracy, shiftToTargetExponent_mul_pow h hp n]
  simp only [hr, h0]
  exact dif_neg (Nat.ne_of_gt hp)

theorem mul_one_of_isFinite {x : Float} (h : x.isFinite = true) : x * 1 = x := by
  obtain ⟨b, hb⟩ := Binary.isFinite_iff.1 h
  have hu := Binary.unpack_of_ofFloat? hb
  have h1 : (1 : Float).toModel.unpack = .finite .positive (2 ^ 52) (-52) (by decide) := rfl
  have hs (s : Sign) : s * .positive = s := by cases s <;> rfl
  apply eq_of_unpack_eq
  change (Float.Model.pack (UnpackedFloat.mul .binary64 x.toModel.unpack
    (1 : Float).toModel.unpack)).unpack = _
  suffices hm : UnpackedFloat.mul .binary64 x.toModel.unpack (1 : Float).toModel.unpack =
      x.toModel.unpack by
    rw [hm, pack_unpack]
  rw [hu, h1, Binary.unpacked]
  split
  · next hp =>
    simp only [UnpackedFloat.mul, hs]
    exact roundWithAccuracy_mul_pow (Binary.isCanonical_of_ofFloat? hb) hp _ 52
  · simp only [UnpackedFloat.mul, hs]

end Number

end Sketch
