import Sketch.Proofs.Code.Entry
import Sketch.Proofs.Number.Overflow
import Sketch.Proofs.Text.Lines

/-!
The line width that options set. The last entry with a width counts. A width is read as a finite
number, but one in centimeters may be too large in millimeters.
-/

open Float.Model.UnpackedFloat

namespace Sketch

namespace Number

theorem isFinite_of_readFinite? {cs : List Char} {x : Float} (h : readFinite? cs = some x) :
    x.isFinite = true := (Option.filter_eq_some_iff.1 h).2

theorem value_ten : (10 : Float).isFinite = true ∧ value 10 = 10 := by
  have h : Binary.ofFloat? 10 = some ⟨false, 5 * 2 ^ 50, -49⟩ := by decide +kernel
  obtain ⟨hf, hv⟩ := value_of_fields h
  exact ⟨hf, by rw [hv]; norm_num⟩

theorem abs_value_mmPerPoint_le :
    Setting.mmPerPoint.isFinite = true ∧ |value Setting.mmPerPoint| ≤ 1 := by
  have h : Binary.ofFloat? Setting.mmPerPoint = some ⟨false, 6331336960576206, -54⟩ := by
    decide +kernel
  obtain ⟨hf, hv⟩ := value_of_fields h
  exact ⟨hf, by rw [hv]; norm_num⟩

/-- A product with a factor of at most one is not too large. -/
theorem isFinite_mul {x y : Float} (hx : x.isFinite = true) (hy : y.isFinite = true)
    (h : |value y| ≤ 1) : (x * y).isFinite = true := by
  refine ((rounds_mul hx hy).isFinite_of_abs_le hx ?_).1
  rw [abs_mul]
  exact mul_le_of_le_one_right (abs_nonneg _) h

end Number

open Number

/-! ### Widths -/

namespace LineWidth

variable {w : ℚ} {x : Float}

theorem mm_ofFloat_of_pos (hn : x.isNaN = false) (h : 0 < x) : (ofFloat x).mm = x := by
  rw [ofFloat, hn, if_neg Bool.false_ne_true, dif_pos h]

theorem mm_ofFloat_of_not_pos (hn : x.isNaN = false) (h : ¬0 < x) : (ofFloat x).mm = 0 := by
  rw [ofFloat, hn, if_neg Bool.false_ne_true, dif_neg h]

theorem isFinite_ofFloat (h : x.isFinite = true) : (ofFloat x).mm.isFinite = true := by
  have hn := isNaN_of_isFinite h
  by_cases h0 : 0 < x
  · rwa [mm_ofFloat_of_pos hn h0]
  · rw [mm_ofFloat_of_not_pos hn h0]
    exact value_zero.1

/-- A width that is too large is kept as an infinite one, and a negative one is taken for zero. -/
theorem isFinite_ofFloat_iff (h : Rounds w x) :
    (ofFloat x).mm.isFinite = true ↔ w < overflowThreshold := by
  have hn := h.not_isNaN
  have hiff := h.isFinite_iff
  cases h with
  | finite hx hv =>
    exact iff_of_true (isFinite_ofFloat hx) ((le_abs_self w).trans_lt (hiff.1 hx))
  | above hx hw =>
    rw [mm_ofFloat_of_pos hn (lt_of_positive value_zero.1 hx)]
    exact iff_of_false (not_isFinite_of_infinite hx) (not_lt.2 (pastLargest_le_rounded_iff.1 hw))
  | below hx hw =>
    have h0 : ¬0 < x := by
      rw [lt_iff_unpack, hx]
      exact Bool.false_ne_true
    rw [mm_ofFloat_of_not_pos hn h0]
    refine iff_of_true value_zero.1 ?_
    rw [← not_le, ← pastLargest_le_rounded_iff, not_le]
    have hpos := pastLargest_pos
    linarith

end LineWidth

/-! ### Entries -/

namespace Setting

variable {entry key value : List Char} {mm : Float}

/-- The line width that an entry sets, if it sets one. -/
def width? (entry : List Char) : Option Float :=
  match ofEntry? entry with
  | some (.lineWidth mm) => some mm
  | _ => none

theorem width?_eq_some : width? entry = some mm ↔ ofEntry? entry = some (.lineWidth mm) := by
  unfold width?
  split
  · next h => rw [h, Option.some_inj, Option.some_inj, Setting.lineWidth.injEq]
  · next hn => exact iff_of_false (by simp) (hn mm)

/-- A length in centimeters that is too large in millimeters. -/
def IsTooLong (value : List Char) : Prop :=
  ∃ number x, Text.before? "cm".toList value = some number ∧
    Number.readFinite? (Text.trim number) = some x ∧ overflowThreshold ≤ Number.value x * 10

/-- An entry that sets a line width in centimeters that is too large in millimeters. -/
def IsTooWide (entry : List Char) : Prop :=
  ∃ key value, Text.splitFirst? '=' entry = some (key, value) ∧
    Text.trim key = "line width".toList ∧ IsTooLong (unbrace (Text.trim value))

theorem splitUnit_of_cm {number : List Char} (h : Text.before? "cm".toList value = some number) :
    splitUnit value = (number, 10) := by
  have hm : Text.before? "mm".toList value = none := by
    cases hm : Text.before? "mm".toList value with
    | none => rfl
    | some other =>
      have he := (Text.eq_append_of_before? h).symm.trans (Text.eq_append_of_before? hm)
      have hu := (List.append_inj' he rfl).2
      contradiction
  simp only [splitUnit, hm, h]

/-- No unit but the centimeter is longer than a millimeter. -/
theorem abs_value_unit_le (h : Text.before? "cm".toList value = none) :
    (splitUnit value).2.isFinite = true ∧ |Number.value (splitUnit value).2| ≤ 1 := by
  have hone : |Number.value 1| ≤ 1 := by
    rw [value_one.2, abs_one]
  unfold splitUnit
  split
  · exact ⟨value_one.1, hone⟩
  · next n _ hn =>
    rw [h] at hn
    contradiction
  · exact abs_value_mmPerPoint_le
  · exact abs_value_mmPerPoint_le

theorem isFinite_length?_iff (h : length? value = some mm) :
    (LineWidth.ofFloat mm).mm.isFinite = true ↔ ¬IsTooLong value := by
  obtain ⟨x, hx, hmm⟩ : ∃ x, readFinite? (Text.trim (splitUnit value).1) = some x ∧
      x * (splitUnit value).2 = mm := Option.map_eq_some_iff.1 h
  have hf := isFinite_of_readFinite? hx
  cases hc : Text.before? "cm".toList value with
  | none =>
    obtain ⟨hu, hle⟩ := abs_value_unit_le hc
    refine iff_of_true (LineWidth.isFinite_ofFloat (hmm ▸ isFinite_mul hf hu hle)) ?_
    rintro ⟨number, -, hn, -⟩
    rw [hc] at hn
    contradiction
  | some number =>
    rw [splitUnit_of_cm hc] at hx hmm
    have hr := rounds_mul hf value_ten.1
    rw [value_ten.2] at hr
    rw [← hmm, LineWidth.isFinite_ofFloat_iff hr, ← not_le, not_iff_not]
    constructor
    · exact fun hle => ⟨number, x, hc, hx, hle⟩
    · rintro ⟨number', x', hc', hx', hle⟩
      obtain rfl : number = number' := Option.some.inj (hc.symm.trans hc')
      obtain rfl : x = x' := Option.some.inj (hx.symm.trans hx')
      exact hle

theorem ofKey?_eq_lineWidth {key : String} (h : ofKey? key value = some (.lineWidth mm)) :
    key = "line width" ∧ length? value = some mm := by
  unfold ofKey? at h
  split at h
  all_goals try cases h
  all_goals
    obtain ⟨x, hx, hs⟩ := Option.map_eq_some_iff.1 h
    cases hs
  exact ⟨rfl, hx⟩

theorem isFinite_of_ofFlag? {flag : String} (h : ofFlag? flag = some (.lineWidth mm)) :
    mm.isFinite = true := by
  unfold ofFlag? at h
  split at h
  all_goals cases h
  all_goals exact isFinite_mul (by decide) abs_value_mmPerPoint_le.1 abs_value_mmPerPoint_le.2

theorem isFinite_width?_iff (h : width? entry = some mm) :
    (LineWidth.ofFloat mm).mm.isFinite = true ↔ ¬IsTooWide entry := by
  rw [width?_eq_some] at h
  unfold ofEntry? at h
  split at h
  · next key value hs =>
    obtain ⟨hkey, hlength⟩ := ofKey?_eq_lineWidth h
    rw [isFinite_length?_iff hlength, not_iff_not]
    constructor
    · refine fun hl => ⟨key, value, hs, ?_, hl⟩
      rw [← hkey, String.toList_ofList]
    · rintro ⟨key', value', hs', -, hl⟩
      obtain ⟨rfl, rfl⟩ : key = key' ∧ value = value' := by
        rw [hs] at hs'
        cases hs'
        exact ⟨rfl, rfl⟩
      exact hl
  · next hs =>
    refine iff_of_true (LineWidth.isFinite_ofFloat (isFinite_of_ofFlag? h)) ?_
    rintro ⟨key, value, hs', -⟩
    rw [hs] at hs'
    contradiction

end Setting

/-! ### Option lists -/

namespace Options

/-- The entry whose line width counts. -/
def widthOption? (raw : List Char) : Option (List Char) :=
  (entries raw).reverse.find? fun entry => (Setting.width? entry).isSome

/-- The line width that counts is too large. -/
def IsTooWide (raw : List Char) : Prop := ∃ entry ∈ widthOption? raw, Setting.IsTooWide entry

theorem lineWidth_set (o : Options) (s : Setting) : (o.set s).lineWidth =
    match s with
    | .lineWidth mm => some mm
    | _ => o.lineWidth := by
  cases s <;> rfl

theorem lineWidth_ofEntries (entries : List (List Char)) : (ofEntries entries).lineWidth =
    (entries.reverse.find? fun entry => (Setting.width? entry).isSome).bind Setting.width? := by
  induction entries using List.reverseRecOn with
  | nil => rfl
  | append_singleton entries entry ih =>
    rw [ofEntries_concat, List.reverse_append, List.reverse_singleton, List.singleton_append,
      List.find?_cons]
    cases hw : Setting.width? entry with
    | some mm =>
      rw [Setting.width?_eq_some.1 hw]
      exact hw.symm
    | none =>
      refine Eq.trans ?_ ih
      cases hs : Setting.ofEntry? entry with
      | none => rfl
      | some s =>
        rw [Option.map_some, Option.getD_some, lineWidth_set]
        split
        · next mm =>
          rw [Setting.width?_eq_some.2 hs] at hw
          contradiction
        · rfl

theorem isFinite_ofText (raw : List Char) (kind : Kind) :
    ((ofText raw).styleFor kind).IsFinite ↔ ¬IsTooWide raw := by
  have hwidth : (ofText raw).lineWidth = (widthOption? raw).bind Setting.width? := by
    rw [ofText_eq, lineWidth_ofEntries, widthOption?]
  change (((ofText raw).lineWidth.map LineWidth.ofFloat).getD .standard).mm.isFinite = true ↔ _
  rw [hwidth, IsTooWide]
  cases he : widthOption? raw with
  | none => exact iff_of_true Style.isFinite_default (by simp)
  | some entry =>
    have hsome : (Setting.width? entry).isSome = true :=
      List.find?_some (p := fun entry => (Setting.width? entry).isSome) he
    obtain ⟨mm, hmm⟩ := Option.isSome_iff_exists.1 hsome
    simpa [hmm] using Setting.isFinite_width?_iff hmm

end Options

end Sketch
