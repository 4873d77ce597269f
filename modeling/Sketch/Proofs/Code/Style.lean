import Sketch.Proofs.Code.LineWidth
import Sketch.Proofs.Code.Recognized

/-!
The style of a recognized element. It follows from the options behind the name of the command, but a
grid always has the default style.
-/

namespace Sketch

def Element.isGrid (e : Element) : Bool :=
  match e.figure with
  | .shape (.grid ..) => true
  | _ => false

namespace Command

variable {line : List Char} {axis : Axis} {e : Element}

/-! ### Option lists -/

/-- The text between the brackets of an option list, if one stands here. -/
def bracketed? : List Char → Option (List Char)
  | '[' :: cs =>
    match Braces.splitBefore? ']' 0 cs with
    | some (raw, _ :: _) => some raw
    | _ => none
  | _ => none

/-- The names of commands with options. -/
def styledNames : List String := ["\\draw", "\\node", "\\addplot+", "\\addplot"]

/-- The option list behind the name of the command, if there is one. -/
def optionList? (line : List Char) : Option (List Char) :=
  (styledNames.findSome? fun name => Text.after? name.toList line).bind fun rest =>
    bracketed? (rest.dropWhile Text.isSpacing)

def optionsOf (line : List Char) : Options := ((optionList? line).map Options.ofText).getD {}

/-- The line width in the options of the command is too large. -/
def StrokesTooWide (line : List Char) : Prop := ∃ raw ∈ optionList? line, Options.IsTooWide raw

theorem isFinite_optionsOf (line : List Char) (kind : Kind) :
    ((optionsOf line).styleFor kind).IsFinite ↔ ¬StrokesTooWide line := by
  unfold optionsOf StrokesTooWide
  cases optionList? line with
  | none => exact iff_of_true Style.isFinite_default (by simp)
  | some raw => simpa using Options.isFinite_ofText raw kind

theorem bracketed?_eq_none {text : List Char} (h : ∀ cs, text ≠ '[' :: cs) :
    bracketed? text = none := by
  unfold bracketed?
  split
  · next cs => exact absurd rfl (h cs)
  · rfl

theorem eq_of_options_eq {c d : Cursor} {o : Options} (h : options c = .ok (o, d)) :
    o = ((bracketed? c.rest).map Options.ofText).getD {} := by
  unfold options at h
  split at h
  · next cs hc =>
    rw [hc]
    cases hs : Braces.splitBefore? ']' 0 cs with
    | none =>
      rw [hs] at h
      cases h
      simp only [bracketed?, hs]
      rfl
    | some p =>
      obtain ⟨raw, rest⟩ := p
      rw [hs] at h
      cases rest with
      | nil =>
        cases h
        simp only [bracketed?, hs]
        rfl
      | cons b rest =>
        cases h
        simp only [bracketed?, hs]
        rfl
  · next hc =>
    cases h
    rw [bracketed?_eq_none hc]
    rfl

/-! ### Styles -/

/-- An element of a line is a grid in the default style, or has the style that the options say. -/
def IsStyled (line : List Char) (e : Element) : Prop :=
  e.isGrid = true ∧ e.style = {} ∨ e.isGrid = false ∧ ∃ kind, e.style = (optionsOf line).styleFor kind

/-- The style of an element follows from its options. -/
def Styles (f : Options → Reader Element) (kind : Kind) : Prop :=
  ∀ o, Gives (f o) fun e => e.isGrid = false ∧ e.style = o.styleFor kind

theorem optionList?_draw (rest : List Char) :
    optionList? ("\\draw".toList ++ rest) = bracketed? (rest.dropWhile Text.isSpacing) := rfl

theorem optionList?_node (rest : List Char) :
    optionList? ("\\node".toList ++ rest) = bracketed? (rest.dropWhile Text.isSpacing) := rfl

theorem optionList?_addplot (rest : List Char) : optionList? ("\\addplot".toList ++ rest) =
    bracketed? (((Text.after? "+".toList rest).getD rest).dropWhile Text.isSpacing) := by
  cases h : Text.after? "+".toList rest with
  | some after =>
    obtain rfl := Text.after?_eq_some.1 h
    rfl
  | none =>
    have hplus : Text.after? "\\addplot+".toList ("\\addplot".toList ++ rest) = none := h
    unfold optionList? styledNames
    rw [List.findSome?_cons_of_isNone (by rfl), List.findSome?_cons_of_isNone (by rfl),
      List.findSome?_cons_of_isNone (by rw [hplus]; rfl)]
    rfl

theorem exists_of_head_eq {name : String} {d : Cursor} {o : Options}
    (h : head name ⟨0, line⟩ = .ok (o, d)) : ∃ rest, line = name.toList ++ rest ∧
      o = ((bracketed? (rest.dropWhile Text.isSpacing)).map Options.ofText).getD {} := by
  obtain ⟨_, c₁, hname, h⟩ := exists_of_bind_eq h
  obtain ⟨_, c₂, hgap, h⟩ := exists_of_bind_eq h
  obtain ⟨o', c₃, ho, h⟩ := exists_of_bind_eq h
  obtain ⟨_, c₄, -, h⟩ := exists_of_bind_eq h
  obtain ⟨rfl, -⟩ := eq_of_pure_eq h
  cases hgap
  exact ⟨c₁.rest, append_of_literal_eq hname, eq_of_options_eq ho⟩

theorem Styles.isStyled {f : Options → Reader Element} {name : String} {d : Cursor} (kind : Kind)
    (hf : Styles f kind) (hname : name = "\\draw" ∨ name = "\\node")
    (h : (head name >>= f) ⟨0, line⟩ = .ok (e, d)) : IsStyled line e := by
  obtain ⟨o, c, ho, h⟩ := exists_of_bind_eq h
  obtain ⟨hg, hs⟩ := hf o c e d h
  obtain ⟨rest, rfl, hrest⟩ := exists_of_head_eq ho
  refine .inr ⟨hg, kind, ?_⟩
  rcases hname with rfl | rfl
  · rw [optionsOf, optionList?_draw, ← hrest, hs]
  · rw [optionsOf, optionList?_node, ← hrest, hs]

theorem isStyled_addplot {d : Cursor} (h : addplot axis ⟨0, line⟩ = .ok (e, d)) :
    IsStyled line e := by
  obtain ⟨_, c₁, hname, h⟩ := exists_of_bind_eq h
  obtain ⟨found, c₂, hplus, h⟩ := exists_of_bind_eq h
  obtain ⟨_, c₃, hgap, h⟩ := exists_of_bind_eq h
  obtain ⟨o, c₄, ho, h⟩ := exists_of_bind_eq h
  obtain ⟨_, c₅, -, h⟩ := exists_of_bind_eq h
  obtain ⟨expression, c₆, -, h⟩ := exists_of_bind_eq h
  obtain ⟨_, c₇, -, h⟩ := exists_of_bind_eq h
  obtain ⟨rfl, -⟩ := eq_of_pure_eq h
  obtain rfl := append_of_literal_eq hname
  have hafter : (Text.after? "+".toList c₁.rest).getD c₁.rest = c₂.rest := by
    rcases exists_of_skips_eq hplus with ⟨-, hc⟩ | ⟨-, hn, rfl⟩
    · rw [Text.after?_eq_some.2 hc, Option.getD_some]
    · rw [hn, Option.getD_none]
  cases hgap
  refine .inr ⟨rfl, .plot, ?_⟩
  rw [optionsOf, optionList?_addplot, hafter, ← eq_of_options_eq ho]

theorem styles_grid : Gives grid fun e => e.isGrid = true ∧ e.style = {} :=
  .bind fun _ => .bind fun _ => .bind fun _ => .bind fun _ => .bind fun _ => .pure ⟨rfl, rfl⟩

theorem isStyled_of_ofLine (h : ofLine axis line = .ok e) : IsStyled line e := by
  obtain ⟨r, hr, hline⟩ := exists_mem_of_firstOf_eq h
  obtain ⟨d, hd⟩ := exists_of_readLine_eq hline
  simp only [table, List.map_cons, List.map_nil, List.mem_cons, List.not_mem_nil, or_false] at hr
  rcases hr with rfl | rfl | rfl | rfl | rfl | rfl
  · refine Styles.isStyled .shape (fun o => ?_) (.inl rfl) hd
    refine .bind fun _ => .bind fun _ => .bind fun _ => .bind fun _ => .bind fun _ => ?_
    exact .bind fun _ => .bind fun _ => .bind fun _ => .bind fun _ => .bind fun _ => .pure ⟨rfl, rfl⟩
  · refine Styles.isStyled .shape (fun o => ?_) (.inl rfl) hd
    refine .bind fun _ => .bind fun _ => .bind fun relative => ?_
    cases relative with
    | true => exact .bind fun _ => .bind fun _ => .bind fun _ => .pure ⟨rfl, rfl⟩
    | false => exact .bind fun _ => .bind fun _ => .pure ⟨rfl, rfl⟩
  · refine Styles.isStyled .shape (fun o => ?_) (.inl rfl) hd
    exact .bind fun _ => .bind fun _ => .bind fun _ => .bind fun _ => .pure ⟨rfl, rfl⟩
  · exact .inl (styles_grid _ _ _ hd)
  · refine Styles.isStyled .text (fun o => ?_) (.inr rfl) hd
    exact .bind fun _ => .bind fun _ => .bind fun _ => .bind fun _ => .bind fun _ => .pure ⟨rfl, rfl⟩
  · exact isStyled_addplot hd

theorem isFinite_style_iff (h : ofLine axis line = .ok e) :
    e.style.IsFinite ↔ e.isGrid = true ∨ ¬StrokesTooWide line := by
  rcases isStyled_of_ofLine h with ⟨hg, hs⟩ | ⟨hg, kind, hs⟩
  · exact iff_of_true (hs ▸ Style.isFinite_default) (.inl hg)
  · simp [hs, hg, isFinite_optionsOf]

end Command

end Sketch
