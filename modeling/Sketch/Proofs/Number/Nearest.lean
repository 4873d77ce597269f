import Sketch.Proofs.Number.Value

/-!
Rounding to the nearest float, as a function on the rational numbers. It is monotone and fixes what
the finite floats stand for, so a rounded number stays on its side of every float.
-/

namespace Sketch

/-! ### The nearest integer -/

/-- An integer at most one half away, and the even one if there are two. -/
def IsNearest (u : ℚ) (n : ℤ) : Prop := |u - n| < 1 / 2 ∨ |u - n| = 1 / 2 ∧ n % 2 = 0

namespace IsNearest

variable {u v : ℚ} {m n : ℤ}

theorem bounds (h : IsNearest u n) : (n : ℚ) - 1 / 2 ≤ u ∧ u ≤ n + 1 / 2 := by
  have hle : |u - n| ≤ 1 / 2 := h.elim le_of_lt fun h => le_of_eq h.1
  obtain ⟨h₁, h₂⟩ := abs_le.1 hle
  exact ⟨by linarith, by linarith⟩

theorem even_of_add_half (h : IsNearest (n + 1 / 2) n) : n % 2 = 0 := by
  rcases h with h | h
  · rw [add_sub_cancel_left, abs_of_pos one_half_pos] at h
    exact absurd h (lt_irrefl _)
  · exact h.2

theorem even_of_sub_half (h : IsNearest (n - 1 / 2) n) : n % 2 = 0 := by
  rcases h with h | h
  · rw [sub_sub_cancel_left, abs_neg, abs_of_pos one_half_pos] at h
    exact absurd h (lt_irrefl _)
  · exact h.2

/-- Out of order there is room for one step, from a half to the same half: then both are even. -/
theorem mono (hu : IsNearest u m) (hv : IsNearest v n) (h : u ≤ v) : m ≤ n := by
  by_contra hlt
  have hstep : ((n + 1 : ℤ) : ℚ) ≤ m := by exact_mod_cast Int.lt_of_not_ge hlt
  push_cast at hstep
  have h₁ := hu.bounds.1
  have h₂ := hv.bounds.2
  have hm : (m : ℚ) = (n + 1 : ℤ) := by
    push_cast
    linarith
  obtain rfl : m = n + 1 := by exact_mod_cast hm
  push_cast at h₁
  obtain rfl : u = (n + 1 : ℤ) - 1 / 2 := by
    push_cast
    linarith
  obtain rfl : v = n + 1 / 2 := by
    push_cast at h
    linarith
  have := hu.even_of_sub_half
  have := hv.even_of_add_half
  omega

theorem unique (hm : IsNearest u m) (hn : IsNearest u n) : m = n :=
  le_antisymm (hm.mono hn le_rfl) (hn.mono hm le_rfl)

theorem neg (h : IsNearest u n) : IsNearest (-u) (-n) := by
  have habs : |-u - ((-n : ℤ) : ℚ)| = |u - n| := by
    rw [← abs_neg (u - n)]
    push_cast
    ring_nf
  rcases h with h | ⟨h, he⟩
  · exact .inl (habs ▸ h)
  · exact .inr ⟨habs ▸ h, by omega⟩

theorem intCast (n : ℤ) : IsNearest n n := .inl (by simp)

theorem of_abs_lt (h : |u - n| < 1 / 2) : IsNearest u n := .inl h

theorem add_half (n : ℤ) : IsNearest (n + 1 / 2) (n + n % 2) := by
  rcases Int.emod_two_eq_zero_or_one n with h | h
  · refine .inr ⟨?_, by omega⟩
    rw [h]
    simp
  · refine .inr ⟨?_, by omega⟩
    rw [h]
    push_cast
    rw [show (n : ℚ) + 1 / 2 - (n + 1) = -(1 / 2) by ring, abs_neg, abs_of_pos one_half_pos]

end IsNearest

def nearestInt (u : ℚ) : ℤ :=
  if u - ⌊u⌋ < 1 / 2 then ⌊u⌋ else if 1 / 2 < u - ⌊u⌋ then ⌊u⌋ + 1 else ⌊u⌋ + ⌊u⌋ % 2

theorem isNearest_nearestInt (u : ℚ) : IsNearest u (nearestInt u) := by
  have hle := Int.floor_le u
  have hlt := Int.lt_floor_add_one u
  unfold nearestInt
  split
  · next h => exact .of_abs_lt (abs_lt.2 ⟨by linarith, h⟩)
  · next h =>
    split
    · next h' =>
      refine .of_abs_lt (abs_lt.2 ?_)
      push_cast
      exact ⟨by linarith, by linarith⟩
    · next h' =>
      have hu : (⌊u⌋ : ℚ) + 1 / 2 = u := by linarith
      have hhalf := IsNearest.add_half ⌊u⌋
      rwa [hu] at hhalf

theorem IsNearest.eq {u : ℚ} {n : ℤ} (h : IsNearest u n) : nearestInt u = n :=
  (isNearest_nearestInt u).unique h

theorem nearestInt_mono {u v : ℚ} (h : u ≤ v) : nearestInt u ≤ nearestInt v :=
  (isNearest_nearestInt u).mono (isNearest_nearestInt v) h

theorem nearestInt_neg (u : ℚ) : nearestInt (-u) = -nearestInt u := (isNearest_nearestInt u).neg.eq

theorem nearestInt_intCast (n : ℤ) : nearestInt n = n := (IsNearest.intCast n).eq

theorem nearestInt_nonneg {u : ℚ} (h : 0 ≤ u) : 0 ≤ nearestInt u :=
  (nearestInt_intCast 0).ge.trans (nearestInt_mono h)

theorem nearestInt_two_pow (n : ℕ) : nearestInt (2 ^ n) = 2 ^ n := by
  have h := nearestInt_intCast (2 ^ n)
  rwa [Int.cast_pow, Int.cast_ofNat] at h

theorem Fraction.isNearest_nearest {r : Fraction} (h : 0 < r.den) :
    IsNearest r.value (r.nearest : ℤ) := by
  have h0 : 0 ≤ r.value := by
    rw [value]
    positivity
  have hle := Nat.floor_le h0
  have hlt := Nat.lt_floor_add_one r.value
  rw [nearest, compareHalf_eq h, floor_eq]
  split
  · next hc =>
    rw [compare_lt_iff_lt] at hc
    refine .of_abs_lt (abs_lt.2 ?_)
    push_cast
    exact ⟨by linarith, by linarith⟩
  · next hc =>
    rw [compare_eq_iff_eq] at hc
    have hv : ((⌊r.value⌋₊ : ℤ) : ℚ) + 1 / 2 = r.value := by
      push_cast
      linarith
    have hhalf := IsNearest.add_half (⌊r.value⌋₊ : ℤ)
    rw [hv] at hhalf
    exact_mod_cast hhalf
  · next hc =>
    rw [compare_gt_iff_gt] at hc
    refine .of_abs_lt (abs_lt.2 ?_)
    push_cast
    exact ⟨by linarith, by linarith⟩

/-! ### The nearest number of a float -/

/-- The exponent of the floats around a number. -/
def gridExponent (w : ℚ) : ℤ := max (Int.log 2 |w| - 52) leastExponent

/-- The nearest multiple of a power of two that leaves 53 binary digits. -/
def rounded (w : ℚ) : ℚ := nearestInt (w / 2 ^ gridExponent w) * 2 ^ gridExponent w

section Rounded

variable {v w : ℚ}

theorem gridExponent_neg (w : ℚ) : gridExponent (-w) = gridExponent w := by
  rw [gridExponent, gridExponent, abs_neg]

theorem leastExponent_le_gridExponent (w : ℚ) : leastExponent ≤ gridExponent w := le_max_right ..

theorem rounded_neg (w : ℚ) : rounded (-w) = -rounded w := by
  rw [rounded, rounded, gridExponent_neg, neg_div, nearestInt_neg]
  push_cast
  ring

theorem rounded_zero : rounded 0 = 0 := by
  have h : nearestInt 0 = 0 := nearestInt_intCast 0
  rw [rounded, zero_div, h]
  simp

theorem rounded_nonneg (h : 0 ≤ w) : 0 ≤ rounded w := by
  have hn : (0 : ℚ) ≤ nearestInt (w / 2 ^ gridExponent w) := by
    exact_mod_cast nearestInt_nonneg (by positivity)
  rw [rounded]
  positivity

theorem div_lt_of_pos (h : 0 < w) : w / 2 ^ gridExponent w < 2 ^ 53 := by
  have hw : w < (2 : ℚ) ^ (Int.log 2 w + 1) := by
    exact_mod_cast Int.lt_zpow_succ_log_self one_lt_two w
  have he : Int.log 2 w + 1 ≤ 53 + gridExponent w := by
    rw [gridExponent, abs_of_pos h]
    omega
  rw [div_lt_iff₀ (by positivity)]
  calc w < (2 : ℚ) ^ (Int.log 2 w + 1) := hw
    _ ≤ 2 ^ (53 + gridExponent w) := zpow_le_zpow_right₀ one_le_two he
    _ = 2 ^ 53 * 2 ^ gridExponent w := by
      rw [zpow_add₀ two_ne_zero]
      norm_num

theorem le_div_of_pos (h : 0 < w) (he : leastExponent < gridExponent w) :
    2 ^ 52 ≤ w / 2 ^ gridExponent w := by
  have hw : (2 : ℚ) ^ Int.log 2 w ≤ w := by exact_mod_cast Int.zpow_log_le_self one_lt_two h
  rw [gridExponent, abs_of_pos h] at he ⊢
  rw [le_div_iff₀ (by positivity)]
  calc (2 : ℚ) ^ 52 * 2 ^ max (Int.log 2 w - 52) leastExponent
      = 2 ^ (52 + max (Int.log 2 w - 52) leastExponent) := by
        rw [zpow_add₀ two_ne_zero]
        norm_num
    _ = 2 ^ Int.log 2 w := by
        congr 1
        omega
    _ ≤ w := hw

theorem nearestInt_le_of_pos (h : 0 < w) : nearestInt (w / 2 ^ gridExponent w) ≤ 2 ^ 53 := by
  have hn := nearestInt_mono (div_lt_of_pos h).le
  rwa [nearestInt_two_pow] at hn

theorem le_nearestInt_of_pos (h : 0 < w) (he : leastExponent < gridExponent w) :
    2 ^ 52 ≤ nearestInt (w / 2 ^ gridExponent w) := by
  have hn := nearestInt_mono (le_div_of_pos h he)
  rwa [nearestInt_two_pow] at hn

/-- Across a power of two the smaller number has the finer grid, and is rounded at most to that
power. -/
theorem rounded_mono_of_pos (hv : 0 < v) (h : v ≤ w) : rounded v ≤ rounded w := by
  have hw := hv.trans_le h
  have hlog : Int.log 2 v ≤ Int.log 2 w := Int.log_mono_right hv h
  have he : gridExponent v ≤ gridExponent w := by
    rw [gridExponent, gridExponent, abs_of_pos hv, abs_of_pos hw]
    omega
  rcases he.eq_or_lt with he | he
  · rw [rounded, rounded, he]
    gcongr
    exact_mod_cast nearestInt_mono (by gcongr)
  · have h₁ : (nearestInt (v / 2 ^ gridExponent v) : ℚ) ≤ 2 ^ 53 := by
      exact_mod_cast nearestInt_le_of_pos hv
    have h₂ : (2 : ℚ) ^ 52 ≤ nearestInt (w / 2 ^ gridExponent w) := by
      exact_mod_cast le_nearestInt_of_pos hw ((leastExponent_le_gridExponent v).trans_lt he)
    calc rounded v ≤ 2 ^ 53 * 2 ^ gridExponent v := by
          rw [rounded]
          gcongr
      _ = 2 ^ 52 * 2 ^ (gridExponent v + 1) := by
          rw [zpow_add_one₀ two_ne_zero]
          ring
      _ ≤ 2 ^ 52 * 2 ^ gridExponent w := by
          gcongr
          · norm_num
          · omega
      _ ≤ rounded w := by
          rw [rounded]
          gcongr

theorem rounded_mono (h : v ≤ w) : rounded v ≤ rounded w := by
  rcases lt_or_ge 0 v with hv | hv
  · exact rounded_mono_of_pos hv h
  · rcases lt_or_ge w 0 with hw | hw
    · have hneg := rounded_mono_of_pos (neg_pos.2 hw) (neg_le_neg h)
      rw [rounded_neg, rounded_neg] at hneg
      exact neg_le_neg_iff.1 hneg
    · have hv' := rounded_nonneg (neg_nonneg.2 hv)
      rw [rounded_neg] at hv'
      exact (neg_nonneg.1 hv').trans (rounded_nonneg hw)

theorem abs_rounded (w : ℚ) : |rounded w| = rounded |w| := by
  rcases le_total 0 w with h | h
  · rw [abs_of_nonneg h, abs_of_nonneg (rounded_nonneg h)]
  · have hneg := rounded_nonneg (neg_nonneg.2 h)
    rw [rounded_neg] at hneg
    rw [abs_of_nonpos h, rounded_neg, abs_of_nonpos (neg_nonneg.1 hneg)]

end Rounded

/-! ### Numbers of floats -/

namespace Binary

/-- The significand with its sign. -/
def signed (b : Binary) : ℤ := if b.negative then -b.significand else b.significand

/-- The number that a finite float stands for. -/
def value (b : Binary) : ℚ := b.signed * 2 ^ b.exponent

/-- The canonical form but for a bound on the exponent. -/
structure IsScaled (b : Binary) : Prop where
  significand_lt : b.significand < 2 ^ 53
  le_exponent : leastExponent ≤ b.exponent
  full : 2 ^ 52 ≤ b.significand ∨ b.exponent = leastExponent

variable {b c : Binary}

theorem IsCanonical.isScaled (h : b.IsCanonical) : b.IsScaled :=
  ⟨h.significand_lt, h.le_exponent, h.full⟩

theorem natAbs_signed (b : Binary) : b.signed.natAbs = b.significand := by
  unfold signed
  split
  · rw [Int.natAbs_neg, Int.natAbs_natCast]
  · rw [Int.natAbs_natCast]

theorem abs_value (b : Binary) : |b.value| = b.magnitude.value := by
  have h : |(b.signed : ℚ)| = b.significand := by
    rw [← natAbs_signed, Nat.cast_natAbs]
    simp
  rw [value, value_magnitude, abs_mul, h, abs_of_pos (by positivity)]

theorem gridExponent_value (h : b.IsScaled) (hp : 0 < b.significand) :
    gridExponent b.value = b.exponent := by
  have hl : b.significand.log2 < 53 := (Nat.log2_lt hp.ne').2 h.significand_lt
  have he := h.le_exponent
  have hf : 52 ≤ b.significand.log2 ∨ b.exponent = leastExponent :=
    h.full.imp_left (Nat.le_log2 hp.ne').2
  rw [gridExponent, abs_value, log_magnitude hp]
  omega

theorem rounded_value (h : b.IsScaled) : rounded b.value = b.value := by
  rcases Nat.eq_zero_or_pos b.significand with h0 | hp
  · have hs : b.signed = 0 := Int.natAbs_eq_zero.1 (b.natAbs_signed.trans h0)
    rw [value, hs, Int.cast_zero, zero_mul, rounded_zero]
  · rw [rounded, gridExponent_value h hp, value, mul_div_cancel_right₀ _ (by positivity),
      nearestInt_intCast]

/-- A significand on the grid. One that was rounded up to the next power of two is halved. -/
def onGrid (negative : Bool) (significand : ℕ) (exponent : ℤ) : Binary :=
  if significand = 2 ^ 53 then ⟨negative, 2 ^ 52, exponent + 1⟩
  else ⟨negative, significand, exponent⟩

section OnGrid

variable {negative : Bool} {significand : ℕ} {exponent : ℤ}

theorem value_onGrid : (onGrid negative significand exponent).value =
    (⟨negative, significand, exponent⟩ : Binary).value := by
  unfold onGrid
  split
  · next h =>
    simp only [value, signed, h]
    rw [zpow_add_one₀ two_ne_zero]
    split
    · push_cast
      ring
    · push_cast
      ring
  · rfl

theorem lowBits_onGrid (h : leastExponent ≤ exponent) :
    (onGrid negative significand exponent).lowBits =
      (exponent - leastExponent).toNat * 2 ^ 52 + significand := by
  unfold onGrid
  split
  · next hs =>
    have he : (exponent + 1 - leastExponent).toNat = (exponent - leastExponent).toNat + 1 := by
      omega
    rw [lowBits, he, hs]
    ring
  · rfl

theorem isScaled_onGrid (hs : significand ≤ 2 ^ 53) (he : leastExponent ≤ exponent)
    (hf : 2 ^ 52 ≤ significand ∨ exponent = leastExponent) :
    (onGrid negative significand exponent).IsScaled := by
  unfold onGrid
  split
  · exact ⟨by norm_num, he.trans (Int.le_add_one le_rfl), .inl le_rfl⟩
  · next hne => exact ⟨Nat.lt_of_le_of_ne hs hne, he, hf⟩

end OnGrid

/-- The form of a rounded number. -/
def nearest (w : ℚ) (negative : Bool) : Binary :=
  onGrid negative (nearestInt (w / 2 ^ gridExponent w)).natAbs (gridExponent w)

variable {w : ℚ}

theorem negative_nearest (w : ℚ) (negative : Bool) : (nearest w negative).negative = negative := by
  unfold nearest onGrid
  split
  · rfl
  · rfl

theorem nearest_neg (w : ℚ) (negative : Bool) : nearest (-w) negative = nearest w negative := by
  rw [nearest, nearest, gridExponent_neg, neg_div, nearestInt_neg, Int.natAbs_neg]

theorem isScaled_nearest_of_pos (h : 0 < w) (negative : Bool) : (nearest w negative).IsScaled := by
  have h₁ := nearestInt_le_of_pos h
  have h₂ := le_nearestInt_of_pos h
  have h₃ := leastExponent_le_gridExponent w
  have h₄ : 0 ≤ nearestInt (w / 2 ^ gridExponent w) := nearestInt_nonneg (by positivity)
  refine isScaled_onGrid (by omega) h₃ ?_
  rcases h₃.eq_or_lt with he | he
  · exact .inr he.symm
  · have := h₂ he
    exact .inl (by omega)

theorem isScaled_nearest (h : w ≠ 0) (negative : Bool) : (nearest w negative).IsScaled := by
  rcases lt_or_gt_of_ne h with hw | hw
  · rw [← nearest_neg]
    exact isScaled_nearest_of_pos (neg_pos.2 hw) negative
  · exact isScaled_nearest_of_pos hw negative

theorem value_nearest_of_nonneg (h : 0 ≤ w) : (nearest w false).value = rounded w := by
  have hn : 0 ≤ nearestInt (w / 2 ^ gridExponent w) := nearestInt_nonneg (by positivity)
  have hs : (((nearestInt (w / 2 ^ gridExponent w)).natAbs : ℤ) : ℚ) =
      nearestInt (w / 2 ^ gridExponent w) := by rw [Int.natAbs_of_nonneg hn]
  rw [nearest, value_onGrid, value, rounded, ← hs]
  rfl

theorem value_nearest_of_nonpos (h : w ≤ 0) : (nearest w true).value = rounded w := by
  have hneg := value_nearest_of_nonneg (neg_nonneg.2 h)
  rw [nearest_neg, rounded_neg, nearest, value_onGrid] at hneg
  rw [nearest, value_onGrid, ← neg_inj, ← hneg]
  simp [value, signed]

end Binary

end Sketch
