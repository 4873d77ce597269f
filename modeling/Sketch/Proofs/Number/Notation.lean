import Sketch.Number.Notation
import Sketch.Proofs.Number.Value

/-!
Reading what was written. The positional notation of a decimal is a run of digits with at most one
point in it; moving the point and dropping zeros at the end change the digits but not the value.
-/

namespace Sketch

namespace Decimal

/-- Digits with a point in front of the fraction, if there is one. -/
def layout (whole fraction : List Char) : List Char :=
  whole ++ if fraction = [] then [] else '.' :: fraction

def IsDigits (cs : List Char) : Prop := ∀ c ∈ cs, c.isDigit = true

variable {whole fraction : List Char}

theorem natOfDigits_eq (cs : List Char) : natOfDigits cs = Nat.ofDigitChars 10 cs 0 := rfl

theorem natOfDigits_append (cs ds : List Char) :
    natOfDigits (cs ++ ds) = 10 ^ ds.length * natOfDigits cs + natOfDigits ds := by
  rw [natOfDigits_eq, Nat.ofDigitChars_append, Nat.ofDigitChars_eq_ofDigitChars_zero]
  rfl

theorem natOfDigits_replicate_zero (n : Nat) : natOfDigits (List.replicate n '0') = 0 := by
  rw [natOfDigits_eq, Nat.ofDigitChars_replicate_zero]
  rfl

@[simp] theorem natOfDigits_toDigits (n : Nat) : natOfDigits (Nat.toDigits 10 n) = n := by
  rw [natOfDigits_eq, Nat.ofDigitChars_ten_toDigits]

theorem isDigits_toDigits (n : Nat) : IsDigits (Nat.toDigits 10 n) :=
  fun _ hc => Nat.isDigit_of_mem_toDigits (by decide) (by decide) hc

theorem span_isDigit {cs ds : List Char} (hc : IsDigits cs)
    (hd : ∀ c ∈ ds.head?, c.isDigit = false) : (cs ++ ds).span Char.isDigit = (cs, ds) := by
  rw [List.span_eq_takeWhile_dropWhile, List.takeWhile_append_of_pos hc,
    List.dropWhile_append_of_pos hc]
  cases ds with
  | nil => simp
  | cons d ds => simp [hd d rfl]

theorem readSign_append (d : Decimal) {c : Char} (hc : c.isDigit = true) (cs : List Char) :
    readSign (d.sign ++ c :: cs) = (d.negative, c :: cs) := by
  have h₁ : c ≠ '-' := by rintro rfl; contradiction
  have h₂ : c ≠ '+' := by rintro rfl; contradiction
  unfold sign
  cases d.negative with
  | true => rfl
  | false => simp [readSign, h₁, h₂]

theorem read?_layout (d : Decimal) (hw : whole ≠ []) (hd : IsDigits (whole ++ fraction)) :
    read? (d.sign ++ layout whole fraction) =
      some ⟨d.negative, natOfDigits (whole ++ fraction), -(fraction.length : Int)⟩ := by
  have hdw : IsDigits whole := fun c hc => hd c (List.mem_append_left _ hc)
  have hdf : IsDigits fraction := fun c hc => hd c (List.mem_append_right _ hc)
  have hs : readSign (d.sign ++ layout whole fraction) = (d.negative, layout whole fraction) := by
    cases whole with
    | nil => contradiction
    | cons c cs => exact readSign_append d (hdw c (List.mem_cons_self ..)) _
  unfold read?
  rw [hs]
  by_cases hf : fraction = []
  · subst hf
    have hp : (whole ++ []).span Char.isDigit = (whole, []) := span_isDigit hdw (by simp)
    simp [-List.span_eq_takeWhile_dropWhile, layout, List.append_nil whole ▸ hp, splitFraction,
      readExponent?, hw]
  · have hp : (whole ++ '.' :: fraction).span Char.isDigit = (whole, '.' :: fraction) :=
      span_isDigit hdw (by simp)
    have hq : (fraction ++ []).span Char.isDigit = (fraction, []) := span_isDigit hdf (by simp)
    rw [List.append_nil] at hq
    simp [-List.span_eq_takeWhile_dropWhile, layout, hf, hp, hq, splitFraction, readExponent?, hw]

/-- The digits without the zeros at their end. -/
def kept (d : Decimal) : List Char :=
  ((Nat.toDigits 10 d.digits).reverse.dropWhile (· = '0')).reverse

theorem exists_toDigits_eq (d : Decimal) :
    ∃ n, Nat.toDigits 10 d.digits = d.kept ++ List.replicate n '0' := by
  have ht := List.takeWhile_append_dropWhile (p := (· = '0')) (l := (Nat.toDigits 10 d.digits).reverse)
  have hr : (Nat.toDigits 10 d.digits).reverse.takeWhile (· = '0') = List.replicate
      ((Nat.toDigits 10 d.digits).reverse.takeWhile (· = '0')).length '0' := by
    rw [List.eq_replicate_iff]
    exact ⟨rfl, fun c hc => by simpa using List.mem_takeWhile_imp hc⟩
  refine ⟨((Nat.toDigits 10 d.digits).reverse.takeWhile (· = '0')).length, ?_⟩
  rw [← List.reverse_inj, kept, List.reverse_append, List.reverse_replicate, List.reverse_reverse,
    ← hr, ht]

theorem isDigits_kept (d : Decimal) : IsDigits d.kept := by
  obtain ⟨n, hn⟩ := exists_toDigits_eq d
  exact fun c hc => isDigits_toDigits d.digits c (hn ▸ List.mem_append_left _ hc)

theorem kept_ne_nil {d : Decimal} (h : d.digits ≠ 0) : d.kept ≠ [] := by
  intro hk
  obtain ⟨n, hn⟩ := exists_toDigits_eq d
  apply h
  rw [← natOfDigits_toDigits d.digits, hn, hk, List.nil_append, natOfDigits_replicate_zero]

/-- Zeros at the end of the digits count as powers of ten. -/
theorem value_kept (d : Decimal) :
    (natOfDigits d.kept : ℚ) * 10 ^ (d.places - d.kept.length) = d.magnitude.value := by
  obtain ⟨n, hn⟩ := exists_toDigits_eq d
  have hd : d.digits = 10 ^ n * natOfDigits d.kept := by
    rw [← natOfDigits_toDigits d.digits, hn, natOfDigits_append, natOfDigits_replicate_zero,
      List.length_replicate, Nat.add_zero]
  have hp : d.places - d.kept.length = n + d.exponent := by
    rw [places, hn, List.length_append, List.length_replicate]
    push_cast
    ring
  rw [value_magnitude, hp, zpow_add₀ (by norm_num), zpow_natCast]
  conv_rhs => rw [hd]
  push_cast
  ring

/-- Digits that stand for the size of a decimal, before and behind a point. -/
structure IsLayout (d : Decimal) (whole fraction : List Char) : Prop where
  whole_ne_nil : whole ≠ []
  isDigits : IsDigits (whole ++ fraction)
  value_eq : (natOfDigits (whole ++ fraction) : ℚ) * 10 ^ (-(fraction.length : ℤ)) = d.magnitude.value

theorem isDigits_replicate_zero (n : Nat) : IsDigits (List.replicate n '0') := by
  intro c hc
  rw [List.eq_of_mem_replicate hc]
  rfl

section Layouts

variable {d : Decimal}

theorem isLayout_zero (h : d.digits = 0) : d.IsLayout ['0'] [] where
  whole_ne_nil := by simp
  isDigits := isDigits_replicate_zero 1
  value_eq := by
    rw [value_magnitude, h]
    simp [natOfDigits]

/-- All digits are behind the point, and zeros between. -/
theorem isLayout_behind (h : d.places ≤ 0) :
    d.IsLayout ['0'] (List.replicate (-d.places).toNat '0' ++ d.kept) where
  whole_ne_nil := by simp
  isDigits := List.forall_mem_append.2 ⟨isDigits_replicate_zero 1,
    List.forall_mem_append.2 ⟨isDigits_replicate_zero _, isDigits_kept d⟩⟩
  value_eq := by
    rw [← List.append_assoc, ← List.replicate_one, List.replicate_append_replicate,
      natOfDigits_append, natOfDigits_replicate_zero, Nat.mul_zero, Nat.zero_add,
      List.length_append, List.length_replicate, ← value_kept d]
    congr 2
    push_cast
    omega

/-- All digits are before the point, and zeros between. -/
theorem isLayout_before (h0 : d.digits ≠ 0) (h : d.kept.length ≤ d.places.toNat) :
    d.IsLayout (d.kept ++ List.replicate (d.places.toNat - d.kept.length) '0') [] where
  whole_ne_nil := by simp [kept_ne_nil h0]
  isDigits := by
    rw [List.append_nil]
    exact List.forall_mem_append.2 ⟨isDigits_kept d, isDigits_replicate_zero _⟩
  value_eq := by
    have hne := List.length_pos_iff.2 (kept_ne_nil h0)
    have hp : d.places - d.kept.length = ((d.places.toNat - d.kept.length : ℕ) : ℤ) := by omega
    rw [List.append_nil, natOfDigits_append, natOfDigits_replicate_zero, List.length_replicate,
      ← value_kept d, hp, zpow_natCast]
    push_cast
    simp
    ring

theorem isLayout_within (h0 : d.digits ≠ 0) (h1 : 0 < d.places) (h2 : d.places.toNat < d.kept.length) :
    d.IsLayout (d.kept.take d.places.toNat) (d.kept.drop d.places.toNat) where
  whole_ne_nil := by
    rw [Ne, List.take_eq_nil_iff]
    simp [kept_ne_nil h0]
    omega
  isDigits := by
    rw [List.take_append_drop]
    exact isDigits_kept d
  value_eq := by
    rw [List.take_append_drop, List.length_drop, ← value_kept d]
    congr 2
    omega

end Layouts

theorem positional_of_ne_zero {d : Decimal} (h : d.digits ≠ 0) : d.positional =
    if d.places ≤ 0 then d.sign ++ '0' :: '.' :: (List.replicate (-d.places).toNat '0' ++ d.kept)
    else if d.kept.length ≤ d.places.toNat then
      d.sign ++ d.kept ++ List.replicate (d.places.toNat - d.kept.length) '0'
    else d.sign ++ d.kept.take d.places.toNat ++ '.' :: d.kept.drop d.places.toNat := by
  simp only [positional, h, if_false]
  rfl

/-- The positional notation lays digits out that stand for the same value. -/
theorem positional_eq_layout (d : Decimal) : ∃ whole fraction : List Char,
    d.positional = d.sign ++ layout whole fraction ∧ d.IsLayout whole fraction := by
  by_cases h0 : d.digits = 0
  · refine ⟨_, _, ?_, isLayout_zero h0⟩
    simp [positional, h0, layout]
  rw [positional_of_ne_zero h0]
  by_cases h1 : d.places ≤ 0
  · refine ⟨_, _, ?_, isLayout_behind h1⟩
    simp [h1, layout, kept_ne_nil h0]
  by_cases h2 : d.kept.length ≤ d.places.toNat
  · refine ⟨_, _, ?_, isLayout_before h0 h2⟩
    simp [h1, h2, layout]
  · have hd : d.kept.drop d.places.toNat ≠ [] := by
      rw [Ne, List.drop_eq_nil_iff]
      exact h2
    refine ⟨_, _, ?_, isLayout_within h0 (not_le.1 h1) (not_le.1 h2)⟩
    simp [h1, h2, layout, hd]

end Decimal

namespace Number

/-- The characters of a number in code. -/
def IsNotation (cs : List Char) : Prop := ∀ c ∈ cs, c.isDigit = true ∨ c = '.' ∨ c = '-'

theorem mem_of_isDigit {c : Char} (h : c.isDigit = true) : c ∈ "0123456789".toList := by
  have hn : 48 ≤ c.toNat ∧ c.toNat ≤ 57 := by
    simpa [Char.isDigit, UInt32.le_iff_toNat_le] using h
  have hall : ∀ n < 58, 48 ≤ n → Char.ofNat n ∈ "0123456789".toList := by decide
  rw [← Char.ofNat_toNat c]
  exact hall _ (Nat.lt_succ_of_le hn.2) hn.1

theorem isNotation_positional (d : Decimal) : IsNotation d.positional := by
  obtain ⟨whole, fraction, hl, -, hd, -⟩ := d.positional_eq_layout
  intro c hc
  rw [hl, Decimal.sign, Decimal.layout] at hc
  rcases List.mem_append.1 hc with hc | hc
  · right; right
    cases hn : d.negative with
    | true => simpa [hn] using hc
    | false => simp [hn] at hc
  · rcases List.mem_append.1 hc with hc | hc
    · exact .inl (hd c (List.mem_append_left _ hc))
    · split at hc
      · simp at hc
      · rcases List.mem_cons.1 hc with rfl | hc
        · exact .inr (.inl rfl)
        · exact .inl (hd c (List.mem_append_right _ hc))

/-- No digit starts the name of an infinity or of not-a-number. -/
theorem named?_cons {c : Char} (h : c.isDigit = true) (cs : List Char) :
    named? ((c :: cs).map Char.toLower) = none := by
  have hl : c.toLower = c := by
    simp only [Char.isDigit, ge_iff_le, Bool.and_eq_true, decide_eq_true_eq] at h
    refine dif_neg fun hu => ?_
    have := UInt32.le_trans hu.1 h.2
    contradiction
  have hi : c ≠ 'i' := by rintro rfl; contradiction
  have hn : c ≠ 'n' := by rintro rfl; contradiction
  simp [named?, hl, hi, hn]

theorem read?_positional (d : Decimal) : read? d.positional = some d.toFloat := by
  obtain ⟨whole, fraction, hl, hw, hd, hv⟩ := d.positional_eq_layout
  have hr := Decimal.read?_layout d hw hd
  have hs : ∃ c cs, c.isDigit = true ∧ d.positional = d.sign ++ c :: cs := by
    cases whole with
    | nil => contradiction
    | cons c cs => exact ⟨c, _, hd c (by simp), hl⟩
  obtain ⟨c, cs, hc, hp⟩ := hs
  unfold read?
  rw [hp, Decimal.readSign_append d hc, ← hp, hl, hr]
  dsimp only
  rw [named?_cons hc]
  simp only [Option.map_some, Option.some.injEq]
  refine Decimal.toFloat_congr ?_ ?_
  · rfl
  · rw [Decimal.value_magnitude, hv]

/-- Every finite float is read back as it was written. -/
theorem readFinite?_write {x : Float} (h : x.isFinite = true) : readFinite? (write x) = some x := by
  obtain ⟨b, hb⟩ := Binary.isFinite_iff.1 h
  rw [readFinite?, write, hb]
  dsimp only
  rw [read?_positional, Decimal.toFloat_shortest hb]
  simp [h]

theorem isNotation_write {x : Float} (h : x.isFinite = true) : IsNotation (write x) := by
  obtain ⟨b, hb⟩ := Binary.isFinite_iff.1 h
  rw [write, hb]
  exact isNotation_positional _

theorem readCount?_toDigits (n : UInt32) : readCount? (Nat.toDigits 10 n.toNat) = some n := by
  have hd := Decimal.isDigits_toDigits n.toNat
  have hp : ∀ cs, Nat.toDigits 10 n.toNat ≠ '+' :: cs := by
    intro cs hcs
    have := hd '+' (hcs ▸ List.mem_cons_self ..)
    contradiction
  have ha : (Nat.toDigits 10 n.toNat).all Char.isDigit = true := List.all_eq_true.2 hd
  have hlt : n.toNat < UInt32.size := n.toNat_lt
  simp only [readCount?, ha, Decimal.natOfDigits_toDigits, hlt]
  simp

end Number

end Sketch
