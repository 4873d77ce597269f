import Sketch.Proofs.Number.Bits
import Sketch.Proofs.Text.Braces
import Sketch.Scene

/-!
Elements whose numbers are all finite, and what is left of a number when the sign of a zero is taken
away: an equal number, and one that makes an equal element.
-/

namespace Sketch

/-! ### Finite numbers -/

structure Point.IsFinite (p : Point) : Prop where
  x : p.x.isFinite = true
  y : p.y.isFinite = true

def Shape.IsFinite : Shape → Prop
  | .circle center radius => center.IsFinite ∧ radius.isFinite = true
  | .rectangle origin width height => origin.IsFinite ∧ Point.IsFinite ⟨width, height⟩
  | .line start stop => start.IsFinite ∧ stop.IsFinite
  | .grid corner opposite => corner.IsFinite ∧ opposite.IsFinite

structure Axis.IsFinite (a : Axis) : Prop where
  min : a.domain.min.isFinite = true
  max : a.domain.max.isFinite = true

def Figure.IsFinite : Figure → Prop
  | .shape s => s.IsFinite
  | .label l => l.position.IsFinite
  | .plot p => p.axis.IsFinite

def Style.IsFinite (s : Style) : Prop := s.lineWidth.mm.isFinite = true

structure Element.IsFinite (e : Element) : Prop where
  figure : e.figure.IsFinite
  style : e.style.IsFinite

def Scene.IsFinite (s : Scene) : Prop := ∀ e ∈ s.elements, e.IsFinite

instance (p : Point) : Decidable p.IsFinite :=
  decidable_of_iff (p.x.isFinite = true ∧ p.y.isFinite = true)
    ⟨fun h => ⟨h.1, h.2⟩, fun h => ⟨h.x, h.y⟩⟩

instance (s : Shape) : Decidable s.IsFinite :=
  match s with
  | .circle .. => inferInstanceAs (Decidable (_ ∧ _))
  | .rectangle .. => inferInstanceAs (Decidable (_ ∧ _))
  | .line .. => inferInstanceAs (Decidable (_ ∧ _))
  | .grid .. => inferInstanceAs (Decidable (_ ∧ _))

instance (a : Axis) : Decidable a.IsFinite :=
  decidable_of_iff (a.domain.min.isFinite = true ∧ a.domain.max.isFinite = true)
    ⟨fun h => ⟨h.1, h.2⟩, fun h => ⟨h.min, h.max⟩⟩

instance (f : Figure) : Decidable f.IsFinite :=
  match f with
  | .shape s => inferInstanceAs (Decidable s.IsFinite)
  | .label l => inferInstanceAs (Decidable l.position.IsFinite)
  | .plot p => inferInstanceAs (Decidable p.axis.IsFinite)

instance (s : Style) : Decidable s.IsFinite := inferInstanceAs (Decidable (_ = true))

instance (e : Element) : Decidable e.IsFinite :=
  decidable_of_iff (e.figure.IsFinite ∧ e.style.IsFinite)
    ⟨fun h => ⟨h.1, h.2⟩, fun h => ⟨h.figure, h.style⟩⟩

instance (s : Scene) : Decidable s.IsFinite :=
  inferInstanceAs (Decidable (∀ e ∈ s.elements, e.IsFinite))

/-- What is said of all plots is checked on an element by looking at its figure. -/
instance Figure.decidableForallPlot (P : Plot → Prop) [DecidablePred P] (f : Figure) :
    Decidable (∀ p, f = .plot p → P p) :=
  match f with
  | .shape _ => isTrue (by rintro p ⟨⟩)
  | .label _ => isTrue (by rintro p ⟨⟩)
  | .plot p => decidable_of_iff (P p) ⟨by rintro h _ ⟨⟩; exact h, fun h => h p rfl⟩

/-! ### Zeros without a sign -/

def Point.unsigned (p : Point) : Point := ⟨Number.unsigned p.x, Number.unsigned p.y⟩

def Shape.unsigned : Shape → Shape
  | .circle center radius => .circle center.unsigned (Number.unsigned radius)
  | .rectangle origin width height =>
    .rectangle origin.unsigned (Number.unsigned width) (Number.unsigned height)
  | .line start stop => .line start.unsigned stop.unsigned
  | .grid corner opposite => .grid corner.unsigned opposite.unsigned

def Axis.unsigned (a : Axis) : Axis :=
  { a with domain := ⟨Number.unsigned a.domain.min, Number.unsigned a.domain.max⟩ }

theorem Point.unsigned_beq {p : Point} (h : p.IsFinite) : (p.unsigned == p) = true := by
  change (Number.unsigned p.x == p.x && Number.unsigned p.y == p.y) = true
  rw [Number.unsigned_beq h.x, Number.unsigned_beq h.y]
  rfl

theorem Axis.unsigned_beq {a : Axis} (h : a.IsFinite) : (a.unsigned == a) = true := by
  change ((Number.unsigned a.domain.min == a.domain.min &&
    Number.unsigned a.domain.max == a.domain.max) && (a.samples == a.samples &&
    a.visible == a.visible)) = true
  rw [Number.unsigned_beq h.min, Number.unsigned_beq h.max]
  simp

theorem Shape.unsigned_beq {s : Shape} (h : s.IsFinite) : (s.unsigned == s) = true := by
  cases s with
  | circle center radius =>
    change (center.unsigned == center && Number.unsigned radius == radius) = true
    rw [Point.unsigned_beq h.1, Number.unsigned_beq h.2]
    rfl
  | rectangle origin width height =>
    change (origin.unsigned == origin && (Number.unsigned width == width &&
      Number.unsigned height == height)) = true
    rw [Point.unsigned_beq h.1, Number.unsigned_beq h.2.x, Number.unsigned_beq h.2.y]
    rfl
  | line start stop =>
    change (start.unsigned == start && stop.unsigned == stop) = true
    rw [Point.unsigned_beq h.1, Point.unsigned_beq h.2]
    rfl
  | grid corner opposite =>
    change (corner.unsigned == corner && opposite.unsigned == opposite) = true
    rw [Point.unsigned_beq h.1, Point.unsigned_beq h.2]
    rfl

/-! ### Elements read again -/

theorem Axis.beq_trans {a b c : Axis} (hab : (a == b) = true) (hbc : (b == c) = true) :
    (a == c) = true := by
  have hiff (a b : Axis) : (a == b) = true ↔ ((a.domain.min == b.domain.min) = true ∧
      (a.domain.max == b.domain.max) = true) ∧ a.samples = b.samples ∧ a.visible = b.visible := by
    change ((a.domain.min == b.domain.min && a.domain.max == b.domain.max) &&
      (a.samples == b.samples && a.visible == b.visible)) = true ↔ _
    simp
  rw [hiff] at hab hbc ⊢
  exact ⟨⟨Number.beq_trans hab.1.1 hbc.1.1, Number.beq_trans hab.1.2 hbc.1.2⟩,
    hab.2.1.trans hbc.2.1, hab.2.2.trans hbc.2.2⟩

theorem Style.isFinite_default : ({} : Style).IsFinite := by
  unfold Style.IsFinite
  decide

theorem Style.beq_self {s : Style} (h : s.IsFinite) : (s == s) = true := by
  change (s.color == s.color && (s.fill == s.fill && (s.lineWidth.mm == s.lineWidth.mm &&
    (s.opacity.percent == s.opacity.percent && (s.lineStyle == s.lineStyle &&
    s.arrowHead == s.arrowHead))))) = true
  have hw : (s.lineWidth.mm == s.lineWidth.mm) = true :=
    Number.beq_iff.2 ⟨Number.isNaN_of_isFinite h, rfl⟩
  rw [hw]
  simp

namespace Label

/-- A label as it is read from its code. -/
def reread (l : Label) : Label := ⟨l.position.unsigned, l.content⟩

@[simp] theorem position_reread (l : Label) : l.reread.position = l.position.unsigned := rfl

@[simp] theorem content_reread (l : Label) : l.reread.content = l.content := by
  simp only [content, reread, String.toList_ofList, Braces.escape_escape]

theorem reread_beq {l : Label} (h : l.position.IsFinite) : (l.reread == l) = true := by
  change (l.position.unsigned == l.position && l.reread.content == l.content) = true
  rw [Point.unsigned_beq h, content_reread]
  simp

end Label

namespace Element

/-- The element as it is read from its code, under the axis that is open. -/
def reread (axis : Axis) (e : Element) : Element :=
  match e.figure with
  | .shape (.grid corner opposite) => ⟨.shape (Shape.grid corner opposite).unsigned, {}⟩
  | .shape s => ⟨.shape s.unsigned, e.style⟩
  | .label l => ⟨.label l.reread, e.style⟩
  | .plot p => ⟨.plot { p with axis }, e.style⟩

/-- What the code of a scene keeps of an element: no style of a grid, and one axis for all plots. -/
def normal (axis : Axis) (e : Element) : Element :=
  match e.figure with
  | .shape (.grid _ _) => { e with style := {} }
  | .plot p => { e with figure := .plot { p with axis } }
  | _ => e

variable {e : Element} {axis : Axis}

theorem exists_eq_plot (h : e.isPlot = true) : ∃ p s, e = ⟨.plot p, s⟩ := by
  obtain ⟨figure, style⟩ := e
  cases figure with
  | shape s => contradiction
  | label l => contradiction
  | plot p => exact ⟨p, style, rfl⟩

@[simp] theorem isPlot_reread (axis : Axis) (e : Element) : (e.reread axis).isPlot = e.isPlot := by
  obtain ⟨figure, style⟩ := e
  cases figure with
  | shape s => cases s <;> rfl
  | label l => rfl
  | plot p => rfl

theorem reread_beq (h : e.IsFinite)
    (hgrid : ∀ corner opposite, e.figure = .shape (.grid corner opposite) → ({} == e.style) = true)
    (hplot : ∀ p, e.figure = .plot p → (axis == p.axis) = true) : (e.reread axis == e) = true := by
  obtain ⟨figure, style⟩ := e
  obtain ⟨hf, hs⟩ := h
  have hstyle := Style.beq_self hs
  cases figure with
  | shape s =>
    have hshape : (s.unsigned == s) = true := Shape.unsigned_beq hf
    cases s with
    | grid corner opposite => exact Bool.and_eq_true_iff.2 ⟨hshape, hgrid corner opposite rfl⟩
    | circle center radius => exact Bool.and_eq_true_iff.2 ⟨hshape, hstyle⟩
    | rectangle origin width height => exact Bool.and_eq_true_iff.2 ⟨hshape, hstyle⟩
    | line start stop => exact Bool.and_eq_true_iff.2 ⟨hshape, hstyle⟩
  | label l => exact Bool.and_eq_true_iff.2 ⟨Label.reread_beq hf, hstyle⟩
  | plot p =>
    have hp : (({ p with axis } : Plot) == p) = true :=
      Bool.and_eq_true_iff.2 ⟨BEq.rfl, hplot p rfl⟩
    exact Bool.and_eq_true_iff.2 ⟨hp, hstyle⟩

theorem reread_eq_reread (h : e.isPlot = false) (a b : Axis) : e.reread a = e.reread b := by
  obtain ⟨figure, style⟩ := e
  cases figure with
  | shape s => cases s <;> rfl
  | label l => rfl
  | plot p => contradiction

@[simp] theorem isPlot_normal (axis : Axis) (e : Element) : (e.normal axis).isPlot = e.isPlot := by
  obtain ⟨figure, style⟩ := e
  cases figure with
  | shape s => cases s <;> rfl
  | label l => rfl
  | plot p => rfl

theorem reread_normal (axis a : Axis) (e : Element) :
    (e.normal a).reread axis = e.reread axis := by
  obtain ⟨figure, style⟩ := e
  cases figure with
  | shape s => cases s <;> rfl
  | label l => rfl
  | plot p => rfl

theorem IsFinite.normal (h : e.IsFinite) {a : Axis} (ha : a.IsFinite) : (e.normal a).IsFinite := by
  obtain ⟨figure, style⟩ := e
  cases figure with
  | shape s =>
    cases s with
    | grid corner opposite => exact ⟨h.figure, Style.isFinite_default⟩
    | circle center radius => exact h
    | rectangle origin width height => exact h
    | line start stop => exact h
  | label l => exact h
  | plot p => exact ⟨ha, h.style⟩

theorem reread_beq_normal (h : e.IsFinite) {a : Axis} (ha : a.IsFinite)
    (hax : (axis == a) = true) : (e.reread axis == e.normal a) = true := by
  rw [← reread_normal axis a]
  apply reread_beq (h.normal ha)
  · intro corner opposite hf
    obtain ⟨figure, style⟩ := e
    cases figure with
    | shape s =>
      cases s with
      | grid => exact Style.beq_self Style.isFinite_default
      | circle => cases hf
      | rectangle => cases hf
      | line => cases hf
    | label l => cases hf
    | plot p => cases hf
  · intro p hf
    obtain ⟨figure, style⟩ := e
    cases figure with
    | shape s => cases s <;> cases hf
    | label l => cases hf
    | plot q =>
      cases hf
      exact hax

end Element

end Sketch
