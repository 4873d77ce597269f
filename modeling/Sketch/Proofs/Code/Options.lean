import Sketch.Proofs.Code.Entry

/-!
Options are read as they were written. Each property of a style that is not the default makes one
entry, and the settings of these entries together make that style again.
-/

namespace Sketch

/-! ### Colors -/

namespace Color

theorem digit?_digitChar : ∀ n < 16, digit? (Nat.digitChar n) = some n := by decide

theorem mapM_digit?_channelDigits (n : UInt8) (cs : List Char) :
    (channelDigits n ++ cs).mapM digit? =
      (cs.mapM digit?).map fun ds => n.toNat / 16 :: n.toNat % 16 :: ds := by
  have hn : n.toNat < 256 := n.toNat_lt
  have h₁ := digit?_digitChar (n.toNat / 16) (by omega)
  have h₀ := digit?_digitChar (n.toNat % 16) (by omega)
  simp only [channelDigits, List.cons_append, List.nil_append, List.mapM_cons, h₁, h₀]
  cases cs.mapM digit? <;> rfl

theorem readHex?_hexDigits (c : Color) : readHex? c.hexDigits = some c := by
  have hd (n : UInt8) : UInt8.ofNat (16 * (n.toNat / 16) + n.toNat % 16) = n := by
    rw [Nat.div_add_mod, UInt8.ofNat_toNat]
  have h := mapM_digit?_channelDigits c.blue []
  rw [List.append_nil] at h
  rw [readHex?, hexDigits, List.append_assoc, mapM_digit?_channelDigits, mapM_digit?_channelDigits, h]
  simp [ofDigits?, hd]

theorem forall_mem_hexDigits {p : Char → Prop} (h : ∀ n < 16, p (Nat.digitChar n)) (c : Color) :
    ∀ d ∈ c.hexDigits, p d := by
  have hc (n : UInt8) : ∀ d ∈ channelDigits n, p d := by
    have hn : n.toNat < 256 := n.toNat_lt
    simp only [channelDigits, List.forall_mem_cons]
    exact ⟨h _ (by omega), h _ (by omega), by simp⟩
  intro d hd
  simp only [hexDigits, List.mem_append] at hd
  rcases hd with (hd | hd) | hd
  · exact hc _ d hd
  · exact hc _ d hd
  · exact hc _ d hd

theorem isEntry_hexDigits (c : Color) : IsEntry c.hexDigits :=
  .of_forall (forall_mem_hexDigits (by decide) c)

theorem hex?_hexDigits (c : Color) : Setting.hex? c.hexDigits = some c := by
  have hn : Text.after? ['#'] c.hexDigits = none := by
    cases h : Text.after? ['#'] c.hexDigits with
    | none => rfl
    | some cs =>
      have hm : '#' ∈ c.hexDigits := by
        rw [Text.after?_eq_some.1 h]
        exact List.mem_cons_self ..
      exact absurd rfl (forall_mem_hexDigits (p := (· ≠ '#')) (by decide) c '#' hm)
  unfold Setting.hex? ofHex
  simp only [String.toList_ofList, hn, Option.getD_none, readHex?_hexDigits]
  rfl

end Color

/-! ### Styles -/

namespace LineWidth

theorem unsigned_mm (w : LineWidth) : Number.unsigned w.mm = w.mm := by
  rcases w.nonneg with h | h
  · rw [h]
    rfl
  · exact Number.unsigned_eq_self (Number.not_beq_zero h)

theorem ofFloat_mm {w : LineWidth} (h : w.mm.isFinite = true) : ofFloat w.mm = w := by
  obtain ⟨mm, hw⟩ := w
  have hn : ¬mm.isNaN = true := by
    rw [Number.isNaN_of_isFinite h]
    exact Bool.false_ne_true
  unfold ofFloat
  rw [if_neg hn]
  split
  · rfl
  · next hn => simp [hw.resolve_right hn]

theorem eq_of_beq {w v : LineWidth} (h : (w == v) = true) : w = v := by
  have hu := (Number.beq_iff.1 h).2
  rw [unsigned_mm, unsigned_mm] at hu
  cases w
  cases v
  simpa using hu

end LineWidth

namespace Opacity

theorem eq_of_beq {o p : Opacity} (h : (o == p) = true) : o = p := by
  have hp : o.percent = p.percent := LawfulBEq.eq_of_beq h
  cases o
  cases p
  simpa using hp

theorem ofNat_percent (o : Opacity) : ofNat o.percent = o := by
  cases o with
  | mk percent h => simp [ofNat, h]

/-- A hundredth times a hundred need not be one as a float, but it is rounded to one. -/
theorem percent?_fraction (o : Opacity) :
    Setting.percent? (Number.code o.fraction).toList = some o.percent ∧ o.fraction.isFinite = true := by
  have hall : ∀ n < 101, Setting.percent? (Number.code (Float.ofNat n / 100)).toList = some n ∧
      (Float.ofNat n / 100).isFinite = true := by
    decide +kernel
  exact hall o.percent (Nat.lt_succ_of_le o.le_hundred)

end Opacity

/-- A default style is the one that has no options. -/
theorem Style.eq_of_isDefault {s : Style} (h : s.isDefault = true) : s = {} := by
  obtain ⟨color, fill, lineWidth, opacity, lineStyle, arrowHead⟩ := s
  have h : (color == .black && (fill == none && (lineWidth == .standard && (opacity == .full &&
    (lineStyle == .solid && arrowHead == .none))))) = true := h
  simp only [Bool.and_eq_true, beq_iff_eq] at h
  obtain ⟨rfl, rfl, hw, ho, rfl, rfl⟩ := h
  rw [LineWidth.eq_of_beq hw, Opacity.eq_of_beq ho]

/-- The option that takes a color, for an element of some kind. -/
def Kind.colorKey : Kind → String
  | .text => "text"
  | .shape | .plot => "draw"

def Kind.colorSetting (c : Color) : Kind → Setting
  | .text => .text (some c)
  | .shape | .plot => .draw (some c)

theorem Kind.isKey_colorKey (kind : Kind) : IsKey kind.colorKey := by
  cases kind with
  | text => exact ⟨by decide, by decide, by decide⟩
  | shape => exact ⟨by decide, by decide, by decide⟩
  | plot => exact ⟨by decide, by decide, by decide⟩

namespace Makes

theorem color (kind : Kind) (c : Color) :
    Makes (kind.colorKey ++ "=" ++ c.hex).toList (kind.colorSetting c) := by
  apply ofKey kind.isKey_colorKey c.isEntry_hexDigits (List.cons_ne_nil _ _)
  · simp [Color.hex]
  · have hh := c.hex?_hexDigits
    cases kind with
    | text => exact congrArg (fun c => some (Setting.text c)) hh
    | shape => exact congrArg (fun c => some (Setting.draw c)) hh
    | plot => exact congrArg (fun c => some (Setting.draw c)) hh

theorem fill (c : Color) : Makes ("fill=" ++ c.hex).toList (.fill (some c)) := by
  have hk : IsKey "fill" := ⟨by decide, by decide, by decide⟩
  apply ofKey hk c.isEntry_hexDigits (List.cons_ne_nil _ _)
  · simp [Color.hex]
  · exact congrArg (fun c => some (Setting.fill c)) c.hex?_hexDigits

theorem lineWidth {w : LineWidth} (h : w.mm.isFinite = true) :
    Makes ("line width=" ++ Number.code w.mm ++ "mm").toList (.lineWidth w.mm) := by
  have hk : IsKey "line width" := ⟨by decide, by decide, by decide⟩
  have hu : IsEntry "mm".toList := by decide
  have hn := IsEntry.code h
  have hr := Number.readFinite?_code h
  have hv := hn.append hu (Number.code_ne_nil h) (by decide)
  apply ofKey hk hv (by simp)
  · simp
  · have hl : Setting.length? ((Number.code w.mm).toList ++ "mm".toList) = some w.mm := by
      rw [Setting.length?, Setting.splitUnit, Text.before?_append]
      simp only [hn.trim_eq, hr, Option.map_some, LineWidth.unsigned_mm, Number.mul_one_of_isFinite h]
    change (Setting.length? _).map Setting.lineWidth = _
    rw [hl]
    rfl

theorem opacity (o : Opacity) :
    Makes ("opacity=" ++ Number.code o.fraction).toList (.opacity o.percent) := by
  have hk : IsKey "opacity" := ⟨by decide, by decide, by decide⟩
  obtain ⟨hp, hf⟩ := o.percent?_fraction
  apply ofKey hk (IsEntry.code hf) (Number.code_ne_nil hf)
  · simp
  · exact congrArg (Option.map Setting.opacity) hp

theorem domain {a : Axis} (h : a.IsFinite) :
    Makes ("domain=" ++ Number.code a.domain.min ++ ":" ++ Number.code a.domain.max).toList
      (.domain a.unsigned.domain) := by
  have hk : IsKey "domain" := ⟨by decide, by decide, by decide⟩
  have hc : IsEntry [':'] := by decide
  have hlow := IsEntry.code h.min
  have hhigh := IsEntry.code h.max
  have hm : ':' ∉ (Number.code a.domain.min).toList := fun hm =>
    absurd rfl (Number.forall_mem_code (p := (· ≠ ':')) h.min (by decide) ':' hm)
  have hv := hlow.append (hc.append hhigh (by simp) (Number.code_ne_nil h.max))
    (Number.code_ne_nil h.min) (by simp)
  apply ofKey hk hv (by simp)
  · simp
  · have hd : Setting.domain? ((Number.code a.domain.min).toList ++
        ([':'] ++ (Number.code a.domain.max).toList)) =
        some a.unsigned.domain := by
      rw [Setting.domain?, List.singleton_append, Text.splitFirst?_append hm]
      simp [hlow.trim_eq, hhigh.trim_eq, Number.readFinite?_code h.min,
        Number.readFinite?_code h.max, Axis.unsigned]
    change (Setting.domain? _).map Setting.domain = _
    rw [hd]
    rfl

theorem samples (n : UInt32) : Makes ("samples=" ++ toString n.toNat).toList (.samples n) := by
  have hk : IsKey "samples" := ⟨by decide, by decide, by decide⟩
  have hd : ∀ c ∈ "0123456789".toList,
      Text.isPlain c = true ∧ Text.isBlank c = false ∧ c ≠ ',' ∧ c ≠ ']' := by
    decide
  have he : IsEntry (Nat.toDigits 10 n.toNat) := .of_forall fun c hc =>
    hd c (Number.mem_of_isDigit (Decimal.isDigits_toDigits n.toNat c hc))
  apply ofKey hk he
  · intro hn
    have hr := Number.readCount?_toDigits n
    rw [hn] at hr
    contradiction
  · simp
  · exact congrArg (Option.map Setting.samples) (Number.readCount?_toDigits n)

end Makes

namespace Style

variable {s : Style}

/-- What the options of a style set. -/
def settings (kind : Kind) (s : Style) : List Setting :=
  (if s.arrowHead = .none then [] else [.arrowHead s.arrowHead]) ++
  (if s.color = .black then [] else [kind.colorSetting s.color]) ++
  (s.fill.map fun c => .fill (some c)).toList ++
  (if s.lineWidth == .standard then [] else [.lineWidth s.lineWidth.mm]) ++
  (if s.opacity == .full then [] else [.opacity s.opacity.percent]) ++
  (if s.lineStyle = .solid then [] else [.lineStyle s.lineStyle])

theorem writes_options (h : s.IsFinite) (kind : Kind) :
    Writes (s.options kind.colorKey) (s.settings kind) := by
  unfold options settings
  refine (((((?_ : Writes _ _).append ?_).append ?_).append ?_).append ?_).append ?_
  · cases s.arrowHead with
    | none => exact .nil
    | forward => exact .cons ⟨by decide, rfl⟩ .nil
    | backward => exact .cons ⟨by decide, rfl⟩ .nil
    | both => exact .cons ⟨by decide, rfl⟩ .nil
  · split
    · exact .nil
    · exact .cons (.color kind s.color) .nil
  · cases s.fill with
    | none => exact .nil
    | some c => exact .cons (.fill c) .nil
  · split
    · exact .nil
    · exact .cons (.lineWidth h) .nil
  · split
    · exact .nil
    · exact .cons (.opacity s.opacity) .nil
  · cases s.lineStyle with
    | solid => exact .nil
    | dashed => exact .cons ⟨by decide, rfl⟩ .nil
    | dotted => exact .cons ⟨by decide, rfl⟩ .nil

/-- A setting that is written only where it changes the style. -/
theorem styleFor_foldl_ite {o : Options} {kind : Kind} {t : Style} {p : Prop} [Decidable p]
    {x : Setting} (hp : p → o.styleFor kind = t) (hn : (o.set x).styleFor kind = t) :
    ((if p then [] else [x]).foldl Options.set o).styleFor kind = t := by
  split
  · next h => exact hp h
  · exact hn

theorem styleFor_set_color (o : Options) (kind : Kind) (c : Color) :
    (o.set (kind.colorSetting c)).styleFor kind = { o.styleFor kind with color := c } := by
  cases kind with
  | text => rfl
  | shape => rfl
  | plot => rfl

theorem styleFor_foldl_fill (o : Options) (kind : Kind) (h : (o.styleFor kind).fill = none) :
    ((s.fill.map fun c => Setting.fill (some c)).toList.foldl Options.set o).styleFor kind =
      { o.styleFor kind with fill := s.fill } := by
  cases s.fill with
  | none =>
    conv_rhs => rw [← h]
    rfl
  | some c => rfl

/-- The settings of a style make it again, one property after the other. -/
theorem styleFor_settings (h : s.IsFinite) (kind : Kind) :
    ((s.settings kind).foldl Options.set {}).styleFor kind = s := by
  unfold settings
  simp only [List.foldl_append]
  have h₁ : ((if s.arrowHead = .none then [] else [Setting.arrowHead s.arrowHead]).foldl
      Options.set {}).styleFor kind = { arrowHead := s.arrowHead } := by
    apply styleFor_foldl_ite
    · intro ha
      cases kind <;> rw [ha] <;> rfl
    · cases kind <;> rfl
  generalize (if s.arrowHead = .none then [] else [Setting.arrowHead s.arrowHead]).foldl
    Options.set {} = o₁ at h₁ ⊢
  have h₂ : ((if s.color = .black then [] else [kind.colorSetting s.color]).foldl
      Options.set o₁).styleFor kind = { color := s.color, arrowHead := s.arrowHead } := by
    apply styleFor_foldl_ite
    · intro hc
      rw [h₁, hc]
    · rw [styleFor_set_color, h₁]
  generalize (if s.color = .black then [] else [kind.colorSetting s.color]).foldl
    Options.set o₁ = o₂ at h₂ ⊢
  have h₃ := styleFor_foldl_fill (s := s) o₂ kind (by rw [h₂])
  rw [h₂] at h₃
  generalize (s.fill.map fun c => Setting.fill (some c)).toList.foldl Options.set o₂ = o₃ at h₃ ⊢
  have h₄ : ((if s.lineWidth == .standard then [] else [Setting.lineWidth s.lineWidth.mm]).foldl
      Options.set o₃).styleFor kind = { o₃.styleFor kind with lineWidth := s.lineWidth } := by
    apply styleFor_foldl_ite
    · intro hw
      rw [LineWidth.eq_of_beq hw, h₃]
    · conv_rhs => rw [← LineWidth.ofFloat_mm h]
      rfl
  rw [h₃] at h₄
  generalize (if s.lineWidth == .standard then [] else [Setting.lineWidth s.lineWidth.mm]).foldl
    Options.set o₃ = o₄ at h₄ ⊢
  have h₅ : ((if s.opacity == .full then [] else [Setting.opacity s.opacity.percent]).foldl
      Options.set o₄).styleFor kind = { o₄.styleFor kind with opacity := s.opacity } := by
    apply styleFor_foldl_ite
    · intro hp
      rw [Opacity.eq_of_beq hp, h₄]
    · conv_rhs => rw [← Opacity.ofNat_percent s.opacity]
      rfl
  rw [h₄] at h₅
  generalize (if s.opacity == .full then [] else [Setting.opacity s.opacity.percent]).foldl
    Options.set o₄ = o₅ at h₅ ⊢
  apply styleFor_foldl_ite
  · intro hl
    rw [h₅, ← hl]
  · have h₆ : (o₅.set (.lineStyle s.lineStyle)).styleFor kind =
        { o₅.styleFor kind with lineStyle := s.lineStyle } := rfl
    rw [h₆, h₅]

theorem sampling_settings (kind : Kind) (axis : Axis) :
    ((s.settings kind).foldl Options.set {}).sampling axis = axis := by
  have hset : ∀ x ∈ s.settings kind, ∀ o : Options, (o.set x).sampling axis = o.sampling axis := by
    intro x hx o
    simp only [settings, List.mem_append, List.mem_ite_nil_left, List.mem_singleton, Option.mem_toList,
      Option.map_eq_some_iff] at hx
    rcases hx with ((((⟨-, rfl⟩ | ⟨-, rfl⟩) | ⟨c, -, rfl⟩) | ⟨-, rfl⟩) | ⟨-, rfl⟩) | ⟨-, rfl⟩
    · rfl
    · cases kind <;> rfl
    · rfl
    · rfl
    · rfl
    · rfl
  have hfold (xs : List Setting) (h : ∀ x ∈ xs, ∀ o : Options, (o.set x).sampling axis = o.sampling axis)
      (o : Options) : (xs.foldl Options.set o).sampling axis = o.sampling axis := by
    induction xs generalizing o with
    | nil => rfl
    | cons x xs ih =>
      rw [List.foldl_cons, ih (fun y hy => h y (List.mem_cons_of_mem _ hy)),
        h x (List.mem_cons_self ..)]
  exact hfold _ hset {}

end Style

/-- Options that say a style, and nothing about an axis. -/
structure Options.Says (o : Options) (kind : Kind) (s : Style) : Prop where
  styleFor : o.styleFor kind = s
  sampling : ∀ axis, o.sampling axis = axis

namespace Style

variable {s : Style}

theorem says_ofText (h : s.IsFinite) (kind : Kind) (hne : s.options kind.colorKey ≠ []) :
    (Options.ofText (", ".intercalate (s.options kind.colorKey)).toList).Says kind s := by
  rw [Options.ofText, (writes_options h kind).settings_eq hne]
  exact ⟨styleFor_settings h kind, sampling_settings kind⟩

theorem says_empty (h : s.IsFinite) (kind : Kind) (hn : s.options kind.colorKey = []) :
    ({} : Options).Says kind s := by
  have hw := writes_options h kind
  have hs := styleFor_settings h kind
  rw [hn] at hw
  rw [List.forall₂_nil_left_iff.1 hw] at hs
  exact ⟨hs, fun _ => rfl⟩

theorem isPlain_options (s : Style) (kind : Kind) :
    ∀ o ∈ s.options kind.colorKey, ∀ c ∈ o.toList, Text.isPlain c = true := by
  unfold options
  simp only [List.forall_mem_append]
  refine ⟨⟨⟨⟨⟨?_, ?_⟩, ?_⟩, ?_⟩, ?_⟩, ?_⟩
  · cases s.arrowHead with
    | none => exact List.forall_mem_nil _
    | forward => decide
    | backward => decide
    | both => decide
  · split
    · exact List.forall_mem_nil _
    · exact List.forall_mem_singleton.2 (Makes.color kind s.color).isEntry.isPlain
  · cases s.fill with
    | none => exact List.forall_mem_nil _
    | some c => exact List.forall_mem_singleton.2 (Makes.fill c).isEntry.isPlain
  · split
    · exact List.forall_mem_nil _
    · simp only [List.forall_mem_singleton, String.toList_append, List.forall_mem_append]
      exact ⟨⟨by decide, Number.isPlain_code _⟩, by decide⟩
  · split
    · exact List.forall_mem_nil _
    · exact List.forall_mem_singleton.2 (Makes.opacity s.opacity).isEntry.isPlain
  · cases s.lineStyle with
    | solid => exact List.forall_mem_nil _
    | dashed => decide
    | dotted => decide

theorem isPlain_code (s : Style) (kind : Kind) :
    ∀ c ∈ (s.code kind.colorKey).toList, Text.isPlain c = true := by
  unfold code
  split
  · simp
  · next hos =>
    rw [String.toList_append, String.toList_append]
    intro c hc
    rcases List.mem_append.1 hc with hc | hc
    · rcases List.mem_append.1 hc with hc | hc
      · cases List.mem_singleton.1 hc
        rfl
      · exact forall_mem_intercalate (by decide) (s.isPlain_options kind) c hc
    · cases List.mem_singleton.1 hc
      rfl

end Style

/-! ### Axes -/

namespace Axis

def options (a : Axis) : List String :=
  [if a.visible then "axis lines=middle" else "hide axis",
    "domain=" ++ Number.code a.domain.min ++ ":" ++ Number.code a.domain.max,
    "samples=" ++ toString a.samples.toNat]

theorem code_eq (a : Axis) : a.code = "[" ++ ", ".intercalate a.options ++ "]" := by
  apply String.toList_inj.1
  simp [code, options]

theorem writes_options {a : Axis} (h : a.IsFinite) :
    Writes a.options [.axis a.visible, .domain a.unsigned.domain, .samples a.samples] := by
  refine .cons ?_ (.cons (.domain h) (.cons (.samples a.samples) .nil))
  cases a.visible with
  | true => exact ⟨by decide, rfl⟩
  | false => exact ⟨by decide, rfl⟩

theorem ofText_options {a : Axis} (h : a.IsFinite) :
    Options.ofText (", ".intercalate a.options).toList =
      { axis := a.visible, domain := a.unsigned.domain, samples := a.samples } := by
  rw [Options.ofText, (writes_options h).settings_eq (List.cons_ne_nil _ _)]
  rfl

end Axis

end Sketch
