import Sketch.Proofs.Code.Style

/-!
What the options of a style leave out. An option is written for a property exactly if its value is not
the default, so no entry of the list can go: without it, its property is read as the default.
-/

namespace Sketch

/-- The properties of a style. -/
inductive Property
  | arrowHead
  | color
  | fill
  | lineWidth
  | opacity
  | lineStyle
  deriving DecidableEq

namespace Property

variable {s : Style} {kind : Kind} {key e : String} {p q : Property}

/-- The properties in the order in which their options are written. -/
def all : List Property := [.arrowHead, .color, .fill, .lineWidth, .opacity, .lineStyle]

/-- Two styles have the same value for a property. -/
def Agrees (s t : Style) : Property → Prop
  | .arrowHead => s.arrowHead = t.arrowHead
  | .color => s.color = t.color
  | .fill => s.fill = t.fill
  | .lineWidth => s.lineWidth = t.lineWidth
  | .opacity => s.opacity = t.opacity
  | .lineStyle => s.lineStyle = t.lineStyle

instance (s t : Style) (p : Property) : Decidable (p.Agrees s t) :=
  match p with
  | .arrowHead => inferInstanceAs (Decidable (_ = _))
  | .color => inferInstanceAs (Decidable (_ = _))
  | .fill => inferInstanceAs (Decidable (_ = _))
  | .lineWidth => inferInstanceAs (Decidable (_ = _))
  | .opacity => inferInstanceAs (Decidable (_ = _))
  | .lineStyle => inferInstanceAs (Decidable (_ = _))

/-- The style with the default for a property. -/
def reset (s : Style) : Property → Style
  | .arrowHead => { s with arrowHead := ({} : Style).arrowHead }
  | .color => { s with color := ({} : Style).color }
  | .fill => { s with fill := ({} : Style).fill }
  | .lineWidth => { s with lineWidth := ({} : Style).lineWidth }
  | .opacity => { s with opacity := ({} : Style).opacity }
  | .lineStyle => { s with lineStyle := ({} : Style).lineStyle }

/-- What a setting sets in the style of an element. Labels have a color key of their own. -/
def ofSetting? (kind : Kind) : Setting → Option Property
  | .draw _ => if kind = .text then none else some .color
  | .text _ => if kind = .text then some .color else none
  | .color _ => some .color
  | .fill _ => some .fill
  | .lineWidth _ => some .lineWidth
  | .opacity _ => some .opacity
  | .arrowHead _ => some .arrowHead
  | .lineStyle _ => some .lineStyle
  | .domain _ | .samples _ | .axis _ => none

/-- What an entry of an option list sets as it is read. -/
def ofEntry? (kind : Kind) (entry : String) : Option Property :=
  (Setting.ofEntry? entry.toList).bind (ofSetting? kind)

theorem nodup_all : all.Nodup := by decide

theorem ofEntry?_of_makes {x : Setting} (h : Makes e.toList x) : ofEntry? kind e = ofSetting? kind x := by
  have he := Makes.ofEntry? h
  unfold ofEntry?
  rw [he, Option.bind_some]

/-! ### The option of one property -/

/-- The option that is written for a property, if any is. -/
def option? (key : String) (s : Style) : Property → Option String
  | .arrowHead => s.arrowHead.option?
  | .color => if s.color = .black then none else some (key ++ "=" ++ s.color.hex)
  | .fill => s.fill.map fun c => "fill=" ++ c.hex
  | .lineWidth =>
    if s.lineWidth == .standard then none
    else some ("line width=" ++ Number.code s.lineWidth.mm ++ "mm")
  | .opacity => if s.opacity == .full then none else some ("opacity=" ++ Number.code s.opacity.fraction)
  | .lineStyle => s.lineStyle.option?

/-- Nothing is written for a property exactly if it has the default. -/
theorem option?_eq_none_iff : option? key s p = none ↔ p.Agrees s {} := by
  cases p with
  | arrowHead =>
    change s.arrowHead.option? = none ↔ s.arrowHead = .none
    cases s.arrowHead <;> simp [ArrowHead.option?]
  | color =>
    change (if s.color = .black then none else _) = none ↔ s.color = .black
    simp
  | fill => exact Option.map_eq_none_iff
  | lineWidth =>
    change (if s.lineWidth == .standard then none else _) = none ↔ s.lineWidth = .standard
    refine ⟨fun h => LineWidth.eq_of_beq (by simpa using h), fun h => ?_⟩
    rw [h]
    rfl
  | opacity =>
    change (if s.opacity == .full then none else _) = none ↔ s.opacity = .full
    refine ⟨fun h => Opacity.eq_of_beq (by simpa using h), fun h => ?_⟩
    rw [h]
    rfl
  | lineStyle =>
    change s.lineStyle.option? = none ↔ s.lineStyle = .solid
    cases s.lineStyle <;> simp [LineStyle.option?]

theorem agrees_reset (s : Style) (p : Property) : p.Agrees (p.reset s) {} := by
  cases p <;> rfl

theorem option?_reset_of_ne (h : q ≠ p) : option? key (p.reset s) q = option? key s q := by
  cases p <;> cases q <;> first | rfl | contradiction

theorem reset_ne_self (h : option? key s p = some e) : p.reset s ≠ s := by
  intro hs
  have hn : option? key (p.reset s) p = none := option?_eq_none_iff.2 (agrees_reset s p)
  rw [hs, h] at hn
  contradiction

theorem isFinite_reset (h : s.IsFinite) (p : Property) : (p.reset s).IsFinite := by
  cases p with
  | lineWidth => exact Style.isFinite_default
  | arrowHead | color | fill | opacity | lineStyle => exact h

/-- The option that is written for a property is read as one that sets it. -/
theorem ofEntry?_option? (hs : s.IsFinite) (h : option? kind.colorKey s p = some e) :
    ofEntry? kind e = some p := by
  cases p with
  | arrowHead =>
    change s.arrowHead.option? = some e at h
    cases ha : s.arrowHead with
    | none =>
      rw [ha] at h
      contradiction
    | forward | backward | both =>
      rw [ha] at h
      obtain rfl := Option.some.inj h
      rfl
  | color =>
    obtain ⟨-, h⟩ := Option.ite_none_left_eq_some.1 h
    obtain rfl := Option.some.inj h
    rw [ofEntry?_of_makes (.color kind s.color)]
    cases kind <;> rfl
  | fill =>
    obtain ⟨c, -, rfl⟩ := Option.map_eq_some_iff.1 h
    exact ofEntry?_of_makes (.fill c)
  | lineWidth =>
    obtain ⟨-, h⟩ := Option.ite_none_left_eq_some.1 h
    obtain rfl := Option.some.inj h
    exact ofEntry?_of_makes (.lineWidth hs)
  | opacity =>
    obtain ⟨-, h⟩ := Option.ite_none_left_eq_some.1 h
    obtain rfl := Option.some.inj h
    exact ofEntry?_of_makes (.opacity s.opacity)
  | lineStyle =>
    change s.lineStyle.option? = some e at h
    cases hl : s.lineStyle with
    | solid =>
      rw [hl] at h
      contradiction
    | dashed | dotted =>
      rw [hl] at h
      obtain rfl := Option.some.inj h
      rfl

end Property

namespace Style

variable {s : Style} {kind : Kind} {key e : String} {before after : List String}

/-! ### The options of all properties -/

theorem options_eq_filterMap (key : String) (s : Style) :
    s.options key = Property.all.filterMap (Property.option? key s) := by
  have hite {c : Prop} [Decidable c] {x : String} :
      (if c then [] else [x]) = (if c then none else some x).toList := by
    split <;> rfl
  rw [List.filterMap_eq_flatMap_toList, options, hite, hite, hite]
  simp only [Property.all, List.flatMap_cons, List.flatMap_nil, List.append_nil, List.append_assoc]
  rfl

/-- There is an entry for every property that is not the default, and no other. -/
theorem map_ofEntry?_options (h : s.IsFinite) (kind : Kind) :
    (s.options kind.colorKey).map (Property.ofEntry? kind) =
      (Property.all.filter fun p => ¬p.Agrees s {}).map some := by
  rw [options_eq_filterMap]
  induction Property.all with
  | nil => rfl
  | cons p ps ih =>
    cases ho : Property.option? kind.colorKey s p with
    | none =>
      have hp := Property.option?_eq_none_iff.1 ho
      rw [List.filterMap_cons_none ho, ih, List.filter_cons_of_neg (by simpa using hp)]
    | some e =>
      have hp : ¬p.Agrees s {} := fun hp => by
        rw [Property.option?_eq_none_iff.2 hp] at ho
        contradiction
      rw [List.filterMap_cons_some ho, List.map_cons, ih, Property.ofEntry?_option? h ho,
        List.filter_cons_of_pos (by simpa using hp), List.map_cons]

/-- An option list without one of its entries is that of the style with the default in its place. -/
theorem exists_options_reset (h : s.options key = before ++ e :: after) :
    ∃ p, Property.option? key s p = some e ∧ (p.reset s).options key = before ++ after := by
  rw [options_eq_filterMap] at h
  obtain ⟨ps, rest, hall, hbefore, hrest⟩ := List.filterMap_eq_append_iff.1 h
  obtain ⟨qs, p, rs, rfl, hnone, hp, hafter⟩ := List.filterMap_eq_cons_iff.1 hrest
  refine ⟨p, hp, ?_⟩
  have hnodup := Property.nodup_all
  rw [hall, ← List.append_assoc, List.nodup_middle, List.nodup_cons, List.mem_append,
    List.mem_append, not_or, not_or] at hnodup
  obtain ⟨⟨⟨hps, hqs⟩, hrs⟩, -⟩ := hnodup
  have hreset {l : List Property} (hl : p ∉ l) :
      l.filterMap (Property.option? key (p.reset s)) = l.filterMap (Property.option? key s) :=
    List.filterMap_congr fun q hq => Property.option?_reset_of_ne fun hqp => hl (hqp ▸ hq)
  have hself : Property.option? key (p.reset s) p = none :=
    Property.option?_eq_none_iff.2 (Property.agrees_reset s p)
  rw [options_eq_filterMap, hall, List.filterMap_append, List.filterMap_append,
    List.filterMap_cons_none hself, hreset hps, hreset hqs, hreset hrs, hbefore, hafter,
    List.filterMap_eq_nil_iff.2 hnone, List.nil_append]

/-! ### Options read back -/

/-- The style that is read from the entries of an option list. -/
def decoded (kind : Kind) (entries : List String) : Style :=
  (Options.ofText (", ".intercalate entries).toList).styleFor kind

theorem decoded_options (h : s.IsFinite) (kind : Kind) : decoded kind (s.options kind.colorKey) = s := by
  by_cases hn : s.options kind.colorKey = []
  · rw [hn]
    exact (says_empty h kind hn).styleFor
  · exact (says_ofText h kind hn).styleFor

/-- The list stands between brackets, and there are none if it is empty. -/
theorem bracketed?_code (h : s.IsFinite) (kind : Kind) :
    Command.bracketed? (s.code kind.colorKey).toList =
      if s.options kind.colorKey = [] then none
      else some (", ".intercalate (s.options kind.colorKey)).toList := by
  unfold code
  split
  · next hn =>
    rw [if_pos hn]
    rfl
  · next hn =>
    have hs := (writes_options h kind).splitBefore?_eq []
    rw [if_neg hn, String.toList_append, String.toList_append]
    change Command.bracketed? ('[' :: ((", ".intercalate (s.options kind.colorKey)).toList ++ [']'])) = _
    rw [Command.bracketed?, hs]

/-- The options of a style are read back as that style. There is one for each property that is not the
default, in a fixed order. Without any one of them the list is read as the style with the default for
its property, which is another style. -/
theorem options_minimal (s : Style) (h : s.lineWidth.mm.isFinite = true) (kind : Kind) :
    let entries := s.options kind.colorKey
    Command.bracketed? (s.code kind.colorKey).toList =
        (if entries = [] then none else some (", ".intercalate entries).toList) ∧
      decoded kind entries = s ∧
      entries.map (Property.ofEntry? kind) = (Property.all.filter fun p => ¬p.Agrees s {}).map some ∧
      ∀ before e after, entries = before ++ e :: after →
        ∃ p, Property.ofEntry? kind e = some p ∧ decoded kind (before ++ after) = p.reset s ∧
          p.reset s ≠ s := by
  refine ⟨bracketed?_code h kind, decoded_options h kind, map_ofEntry?_options h kind, ?_⟩
  intro before e after he
  obtain ⟨p, hp, hreset⟩ := exists_options_reset he
  refine ⟨p, Property.ofEntry?_option? h hp, ?_, Property.reset_ne_self hp⟩
  rw [← hreset, decoded_options (Property.isFinite_reset h p)]

/-- A style that is the default in nothing. -/
def showy : Style where
  color := ⟨255, 0, 0⟩
  fill := some ⟨0, 0, 255⟩
  lineWidth := .ofFloat 1.5
  opacity := .ofNat 40
  lineStyle := .dotted
  arrowHead := .both

theorem options_minimal_showy : showy.lineWidth.mm.isFinite = true ∧
    showy.options "draw" =
      ["<->", "draw=ff0000", "fill=0000ff", "line width=1.5mm", "opacity=0.4", "dotted"] ∧
    decoded .plot (showy.options "draw") = showy ∧
    decoded .plot ["<->", "draw=ff0000", "line width=1.5mm", "opacity=0.4", "dotted"] ≠ showy := by
  have hf : showy.lineWidth.mm.isFinite = true := by decide +kernel
  have ho : showy.options "draw" =
      ["<->", "draw=ff0000", "fill=0000ff", "line width=1.5mm", "opacity=0.4", "dotted"] := by
    decide +kernel
  obtain ⟨-, hdecoded, -, hless⟩ := options_minimal showy hf .plot
  obtain ⟨p, -, hreset, hne⟩ := hless ["<->", "draw=ff0000"] "fill=0000ff"
    ["line width=1.5mm", "opacity=0.4", "dotted"] ho
  exact ⟨hf, ho, hdecoded, hreset ▸ hne⟩

end Style

end Sketch
