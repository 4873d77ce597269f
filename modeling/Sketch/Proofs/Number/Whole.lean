import Sketch.Number.Rounding
import Sketch.Proofs.Number.Rounds

/-!
Whole numbers among the floats. Floors and ceilings are exact, and so is a step of one below
`2 ^ 53`. From there on the floats are even, and a step of one leads nowhere or two further.
-/

namespace Sketch

/-! ### Rounding whole numbers -/

/-- A multiple of a power of two on the grid is rounded to itself. -/
theorem rounded_mul_two_pow {w : ℚ} {k e : ℤ} (hw : w = k * 2 ^ e) (h : gridExponent w ≤ e) :
    rounded w = w := by
  have hq : w / 2 ^ gridExponent w = ((k * 2 ^ (e - gridExponent w).toNat : ℤ) : ℚ) := by
    rw [div_eq_iff (by positivity)]
    conv_lhs => rw [hw]
    push_cast
    rw [mul_assoc, ← zpow_natCast, ← zpow_add₀ two_ne_zero, Int.toNat_of_nonneg (by omega),
      sub_add_cancel]
  rw [rounded, hq, nearestInt_intCast, ← hq, div_mul_cancel₀ _ (by positivity)]

theorem gridExponent_le {w : ℚ} {k : ℤ} (hk : leastExponent ≤ k) (h0 : w ≠ 0)
    (h : |w| < 2 ^ (k + 53)) : gridExponent w ≤ k := by
  have hlog : Int.log 2 |w| < k + 53 := by
    rw [← Int.lt_zpow_iff_log_lt one_lt_two (abs_pos.2 h0)]
    exact_mod_cast h
  rw [gridExponent]
  omega

theorem le_gridExponent {w : ℚ} {k : ℤ} (h : 2 ^ (k + 52) ≤ |w|) : k ≤ gridExponent w := by
  have hw : 0 < |w| := lt_of_lt_of_le (by positivity) h
  have hlog : k + 52 ≤ Int.log 2 |w| := by
    rw [← Int.zpow_le_iff_le_log one_lt_two hw]
    exact_mod_cast h
  rw [gridExponent]
  omega

theorem two_pow_le_abs {w : ℚ} (h0 : w ≠ 0) (h : leastExponent < gridExponent w) :
    2 ^ (52 + gridExponent w) ≤ |w| := by
  have hlog : 52 + gridExponent w = Int.log 2 |w| := by
    rw [gridExponent] at h ⊢
    omega
  rw [hlog]
  exact_mod_cast Int.zpow_log_le_self one_lt_two (abs_pos.2 h0)

theorem rounded_intCast {n : ℤ} (h : |n| ≤ 2 ^ 53) : rounded n = n := by
  by_cases h0 : n = 0
  · rw [h0, Int.cast_zero, rounded_zero]
  · have h0' : (n : ℚ) ≠ 0 := by exact_mod_cast h0
    rcases h.lt_or_eq with hlt | heq
    · refine rounded_mul_two_pow (k := n) (e := 0) (by simp) (gridExponent_le (by decide) h0' ?_)
      exact_mod_cast hlt
    · obtain ⟨s, hs⟩ : ∃ s : ℤ, n = s * 2 ^ 53 := by
        rcases abs_choice n with ha | ha
        · exact ⟨1, by omega⟩
        · exact ⟨-1, by omega⟩
      refine rounded_mul_two_pow (k := s) (e := 53) (by rw [hs]; push_cast; norm_num)
        (gridExponent_le (by decide) h0' ?_)
      have hq : |(n : ℚ)| = 2 ^ 53 := by exact_mod_cast heq
      rw [hq]
      norm_num

namespace Number

variable {x : Float} {n : ℤ}

theorem intCast_lt_pastLargest (h : |n| ≤ 2 ^ 55) : |(n : ℚ)| < pastLargest := by
  have hn : |(n : ℚ)| ≤ 2 ^ 55 := by exact_mod_cast h
  calc |(n : ℚ)| ≤ 2 ^ 55 := hn
    _ < pastLargest := by
      rw [pastLargest]
      gcongr
      · norm_num
      · norm_num

theorem Rounds.value_intCast (h : Rounds n x) (hn : |n| ≤ 2 ^ 53) :
    x.isFinite = true ∧ value x = n := by
  have hr := rounded_intCast hn
  have hlt := intCast_lt_pastLargest (hn.trans (by norm_num))
  rw [← hr] at hlt ⊢
  exact h.isFinite_of_lt hlt

/-! ### Floors and ceilings -/

section ToFloat

variable {r : Fraction}

theorem floatBits_eq_lowBits (hn : 0 < r.num) (hd : 0 < r.den) (negative : Bool) :
    r.floatBits = min (Binary.nearest r.value negative).lowBits infinityBits := by
  have hpos := Fraction.value_pos hn hd
  have he : r.binaryExponent = gridExponent r.value := by
    rw [Fraction.binaryExponent_eq hn hd, gridExponent, abs_of_pos hpos]
  have hm : (nearestInt (r.value / 2 ^ gridExponent r.value)).natAbs =
      (r.timesPow 2 (-gridExponent r.value)).nearest := by
    have h := Fraction.isNearest_nearest (Fraction.den_timesPow_pos hd two_pos (-gridExponent r.value))
    rw [Fraction.value_timesPow, Nat.cast_ofNat, zpow_neg, ← div_eq_mul_inv] at h
    rw [h.eq, Int.natAbs_natCast]
  rw [Binary.nearest, Binary.lowBits_onGrid (leastExponent_le_gridExponent _), hm, ← he]
  simp [Fraction.floatBits, hn.ne']

theorem toFloat_eq_pack (hn : 0 < r.num) (hd : 0 < r.den) (negative : Bool) :
    r.toFloat negative =
      .ofModel (Float.Model.pack (Binary.nearest r.value negative).unpacked) := by
  have hpos := Fraction.value_pos hn hd
  have hs := Binary.isScaled_nearest hpos.ne' negative
  rw [Fraction.toFloat, floatBits_eq_lowBits hn hd negative]
  have hneg := Binary.negative_nearest r.value negative
  generalize Binary.nearest r.value negative = b at hs hneg
  rcases le_or_gt b.exponent 971 with he | he
  · have hc : b.IsCanonical := ⟨hs.significand_lt, hs.le_exponent, he, hs.full⟩
    have hbits := Binary.toNat_toBits_of_ofFloat? (Binary.ofFloat?_pack hc)
    rw [Nat.min_eq_left (Binary.lowBits_lt hc).le, ← hneg, Nat.add_comm, ← hbits,
      UInt64.ofNat_toNat, ofBits_toBits]
  · have hleast : leastExponent = -1074 := rfl
    have hfull : 2 ^ 52 ≤ b.significand := hs.full.resolve_right (by omega)
    have hle : infinityBits ≤ b.lowBits := by
      simp only [infinityBits, Binary.lowBits, Nat.pow_eq]
      omega
    have hu := Binary.unpack_pack_of_lt hs he
    rw [Nat.min_eq_right hle]
    apply eq_of_unpack_eq
    refine Eq.trans ?_ hu.symm
    rw [hneg]
    cases negative with
    | true => rfl
    | false => rfl

/-- The nearest float to a quotient. -/
theorem rounds_toFloat (hd : 0 < r.den) (negative : Bool) :
    Rounds (if negative then -r.value else r.value) (r.toFloat negative) := by
  rcases Nat.eq_zero_or_pos r.num with h0 | hn
  · have hv : r.value = 0 := by rw [Fraction.value, h0, Nat.cast_zero, zero_div]
    have hb : r.floatBits = 0 := by rw [Fraction.floatBits, if_pos h0]
    have hzero := rounds_pack (RoundsTo.zero negative)
    rw [hv, neg_zero, ite_self, Fraction.toFloat, hb]
    cases negative with
    | true => exact hzero
    | false => exact hzero
  · rw [toFloat_eq_pack hn hd]
    exact rounds_pack (RoundsTo.nearest (Fraction.value_pos hn hd) negative)

end ToFloat

section Whole

variable {b : Binary}

theorem isWhole_iff : b.isWhole = true ↔ b.magnitude.value = b.wholePart := by
  have hd : (b.magnitude.den : ℚ) ≠ 0 := by exact_mod_cast (Binary.den_magnitude_pos b).ne'
  rw [Binary.isWhole, decide_eq_true_iff, Binary.wholePart, Fraction.floor, Fraction.value,
    div_eq_iff hd]
  constructor
  · intro h
    exact_mod_cast (Nat.div_mul_cancel (Nat.dvd_of_mod_eq_zero h)).symm
  · intro h
    have h' : b.magnitude.num = b.magnitude.num / b.magnitude.den * b.magnitude.den := by
      exact_mod_cast h
    exact Nat.mod_eq_zero_of_dvd (Dvd.intro_left _ h'.symm)

theorem wholePart_eq (b : Binary) : b.wholePart = ⌊b.magnitude.value⌋₊ := Fraction.floor_eq _

/-- Only small floats have anything behind the point. -/
theorem wholePart_lt (h : b.IsCanonical) (hw : ¬b.isWhole = true) : b.wholePart < 2 ^ 53 := by
  have he : b.exponent < 0 := by
    by_contra hge
    obtain ⟨n, hn⟩ := Int.eq_ofNat_of_zero_le (not_lt.1 hge)
    have hden : b.magnitude.den = 1 := by rw [Binary.magnitude, hn]; rfl
    exact hw (by simp [Binary.isWhole, hden, Nat.mod_one])
  have hs : (b.significand : ℚ) < 2 ^ 53 := by exact_mod_cast h.significand_lt
  rw [wholePart_eq, Nat.floor_lt' (by norm_num), Binary.value_magnitude]
  calc (b.significand : ℚ) * 2 ^ b.exponent ≤ b.significand * 1 := by
        gcongr
        exact zpow_le_one_of_nonpos₀ one_le_two he.le
    _ < ((2 ^ 53 : ℕ) : ℚ) := by
        push_cast
        linarith

theorem value_withWhole (b : Binary) {n : ℕ} (hn : n ≤ 2 ^ 53) :
    (b.withWhole n).isFinite = true ∧
      value (b.withWhole n) = if b.negative then -(n : ℚ) else n := by
  have hm : (⟨b.negative, n, 0⟩ : Binary).magnitude.value = n := by
    rw [Binary.value_magnitude]
    simp
  have h := rounds_toFloat (Binary.den_magnitude_pos ⟨b.negative, n, 0⟩) b.negative
  rw [hm] at h
  have hw : (if b.negative then -(n : ℚ) else n) = ((if b.negative then -n else n : ℤ) : ℚ) := by
    split
    · push_cast
      rfl
    · rfl
  rw [hw] at h ⊢
  apply h.value_intCast
  split
  · rw [abs_neg, Nat.abs_cast]
    exact_mod_cast hn
  · rw [Nat.abs_cast]
    exact_mod_cast hn

/-- A choice of whole number for what is not one already. -/
theorem value_toWhole (choose : Binary → ℕ) (hx : x.isFinite = true)
    (hchoose : ∀ b, choose b ≤ b.wholePart + 1) :
    (toWhole choose x).isFinite = true ∧ ∃ b : Binary, value x = b.value ∧
      (b.isWhole = true ∧ value (toWhole choose x) = value x ∨
        ¬b.isWhole = true ∧
          value (toWhole choose x) = if b.negative then -(choose b : ℚ) else choose b) := by
  obtain ⟨b, hb⟩ := Binary.isFinite_iff.1 hx
  have hv := value_of_ofFloat? hb
  simp only [toWhole, hb]
  by_cases hw : b.isWhole = true
  · rw [if_pos hw]
    exact ⟨hx, b, hv, .inl ⟨hw, rfl⟩⟩
  · have hlt := wholePart_lt (Binary.isCanonical_of_ofFloat? hb) hw
    have hc := hchoose b
    obtain ⟨hf, hn⟩ := value_withWhole b (n := choose b) (by omega)
    rw [if_neg hw]
    exact ⟨hf, b, hv, .inr ⟨hw, hn⟩⟩

theorem wholePart_le (b : Binary) : (b.wholePart : ℚ) ≤ b.magnitude.value := by
  rw [wholePart_eq]
  apply Nat.floor_le
  rw [Binary.value_magnitude]
  positivity

theorem lt_wholePart_add_one (b : Binary) : b.magnitude.value < b.wholePart + 1 := by
  rw [wholePart_eq]
  exact Nat.lt_floor_add_one _

theorem wholePart_lt_value (hw : ¬b.isWhole = true) : (b.wholePart : ℚ) < b.magnitude.value :=
  lt_of_le_of_ne (wholePart_le b) fun h => hw (isWhole_iff.2 h.symm)

/-- Whole floats stand for integers. -/
theorem exists_value_eq (hw : b.isWhole = true) : ∃ n : ℤ, b.value = n := by
  rw [Binary.value_eq, isWhole_iff.1 hw]
  split
  · exact ⟨-b.wholePart, by push_cast; rfl⟩
  · exact ⟨b.wholePart, rfl⟩

theorem value_floor (hx : x.isFinite = true) :
    (floor x).isFinite = true ∧ value (floor x) = ⌊value x⌋ := by
  obtain ⟨hf, b, hv, ⟨hw, hn⟩ | ⟨hw, hn⟩⟩ := value_toWhole
    (fun b => if b.negative then b.wholePart + 1 else b.wholePart) hx
    (fun b => by split <;> omega)
  · obtain ⟨n, hb⟩ := exists_value_eq hw
    refine ⟨hf, hn.trans ?_⟩
    rw [hv, hb, Int.floor_intCast]
  · refine ⟨hf, hn.trans ?_⟩
    have hlt := wholePart_lt_value hw
    have hlt' := lt_wholePart_add_one b
    rw [hv, Binary.value_eq]
    cases b.negative with
    | true =>
      have hfloor : ⌊-b.magnitude.value⌋ = -(b.wholePart + 1 : ℤ) := by
        rw [Int.floor_eq_iff]
        push_cast
        exact ⟨by linarith, by linarith⟩
      simp [hfloor]
    | false =>
      have hfloor : ⌊b.magnitude.value⌋ = (b.wholePart : ℤ) := by
        rw [Int.floor_eq_iff]
        push_cast
        exact ⟨hlt.le, hlt'⟩
      simp [hfloor]

theorem value_ceil (hx : x.isFinite = true) :
    (ceil x).isFinite = true ∧ value (ceil x) = ⌈value x⌉ := by
  obtain ⟨hf, b, hv, ⟨hw, hn⟩ | ⟨hw, hn⟩⟩ := value_toWhole
    (fun b => if b.negative then b.wholePart else b.wholePart + 1) hx
    (fun b => by split <;> omega)
  · obtain ⟨n, hb⟩ := exists_value_eq hw
    refine ⟨hf, hn.trans ?_⟩
    rw [hv, hb, Int.ceil_intCast]
  · refine ⟨hf, hn.trans ?_⟩
    have hlt := wholePart_lt_value hw
    have hlt' := lt_wholePart_add_one b
    rw [hv, Binary.value_eq]
    cases b.negative with
    | true =>
      have hceil : ⌈-b.magnitude.value⌉ = -(b.wholePart : ℤ) := by
        rw [Int.ceil_eq_iff]
        push_cast
        exact ⟨by linarith, by linarith⟩
      simp [hceil]
    | false =>
      have hceil : ⌈b.magnitude.value⌉ = (b.wholePart + 1 : ℤ) := by
        rw [Int.ceil_eq_iff]
        push_cast
        exact ⟨by linarith, by linarith⟩
      simp [hceil]

end Whole

/-! ### Steps of one -/

/-- Where a step of one leads from a whole number. -/
def step (n : ℤ) : ℤ := if -2 ^ 53 ≤ n ∧ n < 2 ^ 53 then n + 1 else n + n % 4

/-- A large float has a large exponent. -/
theorem two_pow_dvd (hx : x.isFinite = true) (hn : value x = n) {k : ℕ}
    (h : 2 ^ (52 + k) ≤ |n|) : 2 ^ k ∣ n := by
  obtain ⟨b, hb, -, hv⟩ := exists_unpack_eq hx
  rw [hv] at hn
  have hs : (b.significand : ℚ) < 2 ^ 53 := by exact_mod_cast hb.significand_lt
  have hle : (2 : ℚ) ^ (52 + k) ≤ |b.value| := by
    rw [hn]
    exact_mod_cast h
  have hlt : (2 : ℚ) ^ ((52 + k : ℕ) : ℤ) < 2 ^ (53 + b.exponent) := by
    calc (2 : ℚ) ^ ((52 + k : ℕ) : ℤ) ≤ |b.value| := by rwa [zpow_natCast]
      _ = b.significand * 2 ^ b.exponent := by rw [Binary.abs_value, Binary.value_magnitude]
      _ < 2 ^ 53 * 2 ^ b.exponent := by gcongr
      _ = 2 ^ (53 + b.exponent) := by
        rw [zpow_add₀ two_ne_zero]
        norm_num
  have he : ((52 + k : ℕ) : ℤ) < 53 + b.exponent := (zpow_lt_zpow_iff_right₀ one_lt_two).1 hlt
  have hint : n = b.signed * 2 ^ b.exponent.toNat := by
    have hq : (n : ℚ) = b.signed * 2 ^ b.exponent.toNat := by
      rw [← hn, Binary.value, ← zpow_natCast, Int.toNat_of_nonneg (by omega)]
    exact_mod_cast hq
  rw [hint]
  exact Dvd.dvd.mul_left (pow_dvd_pow 2 (by omega)) _

theorem even_of_le (hx : x.isFinite = true) (hn : value x = n) (h : 2 ^ 53 ≤ |n|) : n % 2 = 0 :=
  Int.emod_eq_zero_of_dvd (two_pow_dvd hx hn (k := 1) h)

theorem intCast_add_one (n : ℤ) : (n : ℚ) + 1 = (n + 1 : ℤ) := by
  push_cast
  rfl

/-- Between `2 ^ 53` and `2 ^ 54` one more is half way to the next float. -/
theorem rounded_add_one_of_lt (heven : n % 2 = 0) (hge : 2 ^ 53 ≤ |n + 1|)
    (hlt : |n + 1| < 2 ^ 54) : rounded (n + 1) = ((n + n % 4 : ℤ) : ℚ) := by
  have hg : gridExponent (n + 1) = 1 := by
    rw [intCast_add_one]
    apply le_antisymm
    · apply gridExponent_le (by decide)
      · intro h0
        rw [Int.cast_eq_zero.1 h0] at hge
        norm_num at hge
      · exact_mod_cast hlt
    · apply le_gridExponent
      exact_mod_cast hge
  obtain ⟨j, rfl⟩ := Int.dvd_of_emod_eq_zero heven
  have hhalf : ((2 * j : ℤ) + 1 : ℚ) / 2 ^ (1 : ℤ) = j + 1 / 2 := by
    push_cast
    ring
  have hmod : 2 * j % 4 = 2 * (j % 2) := by omega
  rw [rounded, hg, hhalf, (IsNearest.add_half j).eq, hmod]
  push_cast
  ring

/-- From `2 ^ 54` on one more is nearer to the float than to the next one. -/
theorem rounded_add_one_of_le (hx : x.isFinite = true) (hn : value x = n) (heven : n % 2 = 0)
    (hge : 2 ^ 54 ≤ |n + 1|) : rounded (n + 1) = n := by
  have hg : 2 ≤ gridExponent (n + 1) := by
    apply le_gridExponent
    rw [intCast_add_one]
    exact_mod_cast hge
  obtain ⟨k, hk⟩ := Int.eq_ofNat_of_zero_le (by omega : 0 ≤ gridExponent (n + 1))
  have hpow : 2 ^ (52 + k) ≤ |n + 1| := by
    have h0 : (n : ℚ) + 1 ≠ 0 := by
      rw [intCast_add_one]
      intro h0
      rw [Int.cast_eq_zero.1 h0] at hge
      norm_num at hge
    have hq := two_pow_le_abs h0 (by rw [leastExponent]; omega)
    rw [hk, intCast_add_one] at hq
    exact_mod_cast hq
  have hpow' : 2 ^ (52 + k) ≤ |n| := by
    have heven' : (2 : ℤ) ^ (52 + k) = 2 * 2 ^ (51 + k) := by
      rw [← pow_succ']
      congr 1
      omega
    rw [le_abs] at hpow ⊢
    omega
  obtain ⟨j, hj⟩ := two_pow_dvd hx hn hpow'
  have hquotient : ((n : ℚ) + 1) / 2 ^ (k : ℤ) = j + 1 / 2 ^ k := by
    rw [hj, zpow_natCast]
    push_cast
    field_simp
  have hsmall : (1 : ℚ) / 2 ^ k < 1 / 2 := by
    apply one_div_lt_one_div_of_lt two_pos
    calc (2 : ℚ) < 2 ^ 2 := by norm_num
      _ ≤ 2 ^ k := pow_le_pow_right₀ one_le_two (by omega)
  have hnearest : nearestInt (((n : ℚ) + 1) / 2 ^ (k : ℤ)) = j := by
    apply IsNearest.eq
    apply IsNearest.of_abs_lt
    rw [hquotient, add_sub_cancel_left, abs_of_pos (by positivity)]
    exact hsmall
  rw [rounded, hk, hnearest, hj, zpow_natCast]
  push_cast
  ring

theorem rounded_add_one (hx : x.isFinite = true) (hn : value x = n)
    (h : ¬(-2 ^ 53 ≤ n ∧ n < 2 ^ 53)) : rounded (n + 1) = ((n + n % 4 : ℤ) : ℚ) := by
  have heven := even_of_le hx hn (le_abs.2 (by omega))
  rcases lt_or_ge |n + 1| (2 ^ 54) with hlt | hge
  · exact rounded_add_one_of_lt heven (le_abs.2 (by omega)) hlt
  · have hge' : 2 ^ 54 ≤ |n| := by
      rw [le_abs] at hge ⊢
      omega
    have hmod : n % 4 = 0 := Int.emod_eq_zero_of_dvd (two_pow_dvd hx hn (k := 2) hge')
    rw [rounded_add_one_of_le hx hn heven hge, hmod, add_zero]

theorem value_one : (1 : Float).isFinite = true ∧ value 1 = 1 := by
  have h : Binary.ofFloat? 1 = some ⟨false, 2 ^ 52, -52⟩ := by decide +kernel
  obtain ⟨hf, hv⟩ := value_of_fields h
  exact ⟨hf, by rw [hv]; norm_num⟩

theorem value_add_one (hx : x.isFinite = true) (hn : value x = n) :
    (x + 1).isFinite = true ∧ value (x + 1) = step n := by
  have hr := rounds_add hx value_one.1
  rw [hn, value_one.2] at hr
  unfold step
  split
  · next h =>
    rw [intCast_add_one] at hr
    exact hr.value_intCast (abs_le.2 (by omega))
  · next h =>
    have hround := rounded_add_one hx hn h
    rw [← hround]
    apply hr.isFinite_of_lt
    rw [hround]
    rcases lt_or_ge |n| (2 ^ 54) with hlt | hge
    · apply intCast_lt_pastLargest
      rw [abs_lt] at hlt
      rw [abs_le]
      omega
    · have hmod : n % 4 = 0 := Int.emod_eq_zero_of_dvd (two_pow_dvd hx hn (k := 2) hge)
      rw [hmod, add_zero, ← hn]
      exact abs_value_lt hx

end Number

end Sketch
