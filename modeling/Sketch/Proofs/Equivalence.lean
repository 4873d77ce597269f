import Sketch.Proofs.RoundTrip

/-!
Equivalence of scenes. Elements are equal if none of their numbers is NaN and they are the same but
for the signs of zeros. Code writes no sign of a zero, so scenes that hold equal elements have one code.
-/

namespace Sketch

/-! ### Elements without NaN -/

def Point.IsNumeric (p : Point) : Prop := p.x.isNaN = false ∧ p.y.isNaN = false

def Shape.IsNumeric : Shape → Prop
  | .circle center radius => center.IsNumeric ∧ radius.isNaN = false
  | .rectangle origin width height => origin.IsNumeric ∧ Point.IsNumeric ⟨width, height⟩
  | .line start stop => start.IsNumeric ∧ stop.IsNumeric
  | .grid corner opposite => corner.IsNumeric ∧ opposite.IsNumeric

def Axis.IsNumeric (a : Axis) : Prop := a.domain.min.isNaN = false ∧ a.domain.max.isNaN = false

def Figure.IsNumeric : Figure → Prop
  | .shape s => s.IsNumeric
  | .label l => l.position.IsNumeric
  | .plot p => p.axis.IsNumeric

/-- No number of the element is NaN; that of its line width never is. -/
def Element.IsNumeric (e : Element) : Prop := e.figure.IsNumeric

def Scene.IsNumeric (s : Scene) : Prop := ∀ e ∈ s.elements, e.IsNumeric

/-! ### Elements without signs of zeros -/

def Figure.unsigned : Figure → Figure
  | .shape s => .shape s.unsigned
  | .label l => .label l.reread
  | .plot p => .plot { p with axis := p.axis.unsigned }

/-- The zero of a line width has no sign. -/
def Element.unsigned (e : Element) : Element := ⟨e.figure.unsigned, e.style⟩

/-! ### Equal elements -/

theorem Point.beq_iff {p q : Point} : (p == q) = true ↔ p.IsNumeric ∧ p.unsigned = q.unsigned := by
  change (p.x == q.x && p.y == q.y) = true ↔ _
  rw [Bool.and_eq_true, Number.beq_iff, Number.beq_iff, and_and_and_comm, unsigned, unsigned, mk.injEq]
  rfl

theorem Shape.beq_iff {s t : Shape} : (s == t) = true ↔ s.IsNumeric ∧ s.unsigned = t.unsigned := by
  cases s <;> cases t
  case circle.circle c r d q =>
    change (c == d && r == q) = true ↔ _
    rw [Bool.and_eq_true, Point.beq_iff, Number.beq_iff, and_and_and_comm, unsigned, unsigned, circle.injEq]
    rfl
  case rectangle.rectangle o w h p v k =>
    change (o == p && Point.mk w h == Point.mk v k) = true ↔ _
    have hextent : Point.unsigned ⟨w, h⟩ = Point.unsigned ⟨v, k⟩ ↔
        Number.unsigned w = Number.unsigned v ∧ Number.unsigned h = Number.unsigned k := by
      rw [Point.unsigned, Point.unsigned, Point.mk.injEq]
    rw [Bool.and_eq_true, Point.beq_iff, Point.beq_iff, and_and_and_comm, hextent, unsigned, unsigned,
      rectangle.injEq]
    rfl
  case line.line a b c d =>
    change (a == c && b == d) = true ↔ _
    rw [Bool.and_eq_true, Point.beq_iff, Point.beq_iff, and_and_and_comm, unsigned, unsigned, line.injEq]
    rfl
  case grid.grid a b c d =>
    change (a == c && b == d) = true ↔ _
    rw [Bool.and_eq_true, Point.beq_iff, Point.beq_iff, and_and_and_comm, unsigned, unsigned, grid.injEq]
    rfl
  -- Shapes of different kinds are neither equal nor the same.
  all_goals exact iff_of_false Bool.false_ne_true (by rintro ⟨-, h⟩; cases h)

theorem Label.beq_iff {l m : Label} : (l == m) = true ↔ l.position.IsNumeric ∧ l.reread = m.reread := by
  change (l.position == m.position && l.content == m.content) = true ↔ _
  rw [Bool.and_eq_true, Point.beq_iff, beq_iff_eq, reread, reread, mk.injEq, and_assoc]

theorem Axis.beq_iff {a b : Axis} : (a == b) = true ↔ a.IsNumeric ∧ a.unsigned = b.unsigned := by
  change ((a.domain.min == b.domain.min && a.domain.max == b.domain.max) &&
    (a.samples == b.samples && a.visible == b.visible)) = true ↔ _
  have hdomain : (a.domain.min == b.domain.min && a.domain.max == b.domain.max) = true ↔
      a.IsNumeric ∧ Number.unsigned a.domain.min = Number.unsigned b.domain.min ∧
        Number.unsigned a.domain.max = Number.unsigned b.domain.max := by
    rw [Bool.and_eq_true, Number.beq_iff, Number.beq_iff, and_and_and_comm]
    rfl
  rw [Bool.and_eq_true, hdomain, Bool.and_eq_true, beq_iff_eq, beq_iff_eq, and_assoc, unsigned, unsigned,
    mk.injEq, Domain.mk.injEq]

theorem Figure.beq_iff {f g : Figure} : (f == g) = true ↔ f.IsNumeric ∧ f.unsigned = g.unsigned := by
  cases f <;> cases g
  case shape.shape s t =>
    rw [unsigned, unsigned, shape.injEq]
    exact Shape.beq_iff
  case label.label l m =>
    rw [unsigned, unsigned, label.injEq]
    exact Label.beq_iff
  case plot.plot p q =>
    change (p.expression == q.expression && p.axis == q.axis) = true ↔ _
    rw [Bool.and_eq_true, beq_iff_eq, Axis.beq_iff, and_left_comm, unsigned, unsigned, plot.injEq,
      Plot.mk.injEq]
    rfl
  all_goals exact iff_of_false Bool.false_ne_true (by rintro ⟨-, h⟩; cases h)

/-- NaN is not above zero. -/
theorem LineWidth.isNaN_mm (w : LineWidth) : w.mm.isNaN = false := by
  rcases w.nonneg with h | h
  · rw [h]
    rfl
  · have hl : (0 : Float).toModel.unpack.lt w.mm.toModel.unpack = true := of_decide_eq_true h
    change w.mm.toModel.unpack.isNaN = false
    cases hu : w.mm.toModel.unpack with
    | notANumber =>
      rw [hu] at hl
      contradiction
    | zero | infinity | finite => rfl

theorem LineWidth.beq_iff {v w : LineWidth} : (v == w) = true ↔ v = w := by
  refine ⟨eq_of_beq, ?_⟩
  rintro rfl
  exact Number.beq_iff.2 ⟨v.isNaN_mm, rfl⟩

theorem Opacity.beq_iff {a b : Opacity} : (a == b) = true ↔ a = b := by
  refine ⟨eq_of_beq, ?_⟩
  rintro rfl
  exact beq_self_eq_true a.percent

theorem Style.beq_iff {s t : Style} : (s == t) = true ↔ s = t := by
  change (s.color == t.color && (s.fill == t.fill && (s.lineWidth == t.lineWidth &&
    (s.opacity == t.opacity && (s.lineStyle == t.lineStyle && s.arrowHead == t.arrowHead))))) = true ↔ _
  cases s
  cases t
  simp only [Bool.and_eq_true, beq_iff_eq, LineWidth.beq_iff, Opacity.beq_iff, mk.injEq]

namespace Element

variable {e f : Element} {es fs : List Element}

theorem beq_iff : (e == f) = true ↔ e.IsNumeric ∧ e.unsigned = f.unsigned := by
  change (e.figure == f.figure && e.style == f.style) = true ↔ _
  rw [Bool.and_eq_true, Figure.beq_iff, Style.beq_iff, unsigned, unsigned, mk.injEq, and_assoc]
  rfl

theorem map_beq_iff : (es == fs) = true ↔
    (∀ e ∈ es, e.IsNumeric) ∧ es.map unsigned = fs.map unsigned := by
  induction es generalizing fs with
  | nil => cases fs with
    | nil => simp
    | cons f fs => simp
  | cons e es ih =>
    cases fs with
    | nil => simp
    | cons f fs =>
      rw [List.cons_beq_cons, Bool.and_eq_true, beq_iff, ih, and_and_and_comm, List.forall_mem_cons,
        List.map_cons, List.map_cons, List.cons.injEq]

end Element

/-! ### What no sign of a zero changes -/

theorem Point.isNumeric_unsigned {p : Point} : p.unsigned.IsNumeric ↔ p.IsNumeric := by
  rw [IsNumeric, unsigned, Number.isNaN_unsigned, Number.isNaN_unsigned, IsNumeric]

theorem Shape.isNumeric_unsigned {s : Shape} : s.unsigned.IsNumeric ↔ s.IsNumeric := by
  cases s with
  | circle center radius =>
    exact and_congr Point.isNumeric_unsigned (Number.isNaN_unsigned radius ▸ Iff.rfl)
  | rectangle origin width height =>
    exact and_congr Point.isNumeric_unsigned (Point.isNumeric_unsigned (p := ⟨width, height⟩))
  | line start stop => exact and_congr Point.isNumeric_unsigned Point.isNumeric_unsigned
  | grid corner opposite => exact and_congr Point.isNumeric_unsigned Point.isNumeric_unsigned

theorem Element.isNumeric_unsigned {e : Element} : e.unsigned.IsNumeric ↔ e.IsNumeric := by
  obtain ⟨figure, style⟩ := e
  cases figure with
  | shape s => exact Shape.isNumeric_unsigned
  | label l => exact Point.isNumeric_unsigned
  | plot p => exact Point.isNumeric_unsigned (p := ⟨p.axis.domain.min, p.axis.domain.max⟩)

/-- An element has its code whatever the signs of its zeros are. -/
theorem Element.code_unsigned (e : Element) : e.unsigned.code = e.code := by
  obtain ⟨figure, style⟩ := e
  cases figure with
  | shape s => exact Shape.code_unsigned style s
  | label l =>
    simp only [code, unsigned, Figure.unsigned, Label.position_reread, Label.content_reread,
      Point.code_unsigned]
  | plot p => rfl

/-! ### Scenes -/

/-- A list holds the elements of two others, those of either in their order. -/
inductive Interleaves : List Element → List Element → List Element → Prop
  | nil : Interleaves [] [] []
  | left {e es fs gs} : Interleaves es fs gs → Interleaves (e :: es) fs (e :: gs)
  | right {f es fs gs} : Interleaves es fs gs → Interleaves es (f :: fs) (f :: gs)

theorem Interleaves.filter {es fs gs : List Element} {p : Element → Bool} (h : Interleaves es fs gs)
    (he : ∀ e ∈ es, p e = true) (hf : ∀ f ∈ fs, p f = false) : gs.filter p = es := by
  induction h with
  | nil => rfl
  | left _ ih =>
    obtain ⟨he, hes⟩ := List.forall_mem_cons.1 he
    rw [List.filter_cons_of_pos he, ih hes hf]
  | right _ ih =>
    obtain ⟨hf, hfs⟩ := List.forall_mem_cons.1 hf
    rw [List.filter_cons_of_neg (by simp [hf]), ih he hfs]

theorem Interleaves.symm {es fs gs : List Element} (h : Interleaves es fs gs) : Interleaves fs es gs := by
  induction h with
  | nil => exact .nil
  | left _ ih => exact .right ih
  | right _ ih => exact .left ih

namespace Scene

variable {a b c : Scene}

theorem forall_mem_drawn (s : Scene) : ∀ e ∈ s.drawn, e.isPlot = false := by
  intro e he
  simpa using (List.mem_filter.1 he).2

theorem forall_mem_plotted (s : Scene) : ∀ e ∈ s.plotted, e.isPlot = true := fun _ he =>
  (List.mem_filter.1 he).2

theorem isNumeric_iff : a.IsNumeric ↔ (∀ e ∈ a.drawn, e.IsNumeric) ∧ ∀ e ∈ a.plotted, e.IsNumeric := by
  constructor
  · exact fun h => ⟨fun e he => h e (List.mem_filter.1 he).1, fun e he => h e (List.mem_filter.1 he).1⟩
  · rintro ⟨hd, hp⟩ e he
    cases hplot : e.isPlot with
    | true => exact hp e (List.mem_filter.2 ⟨he, hplot⟩)
    | false => exact hd e (List.mem_filter.2 ⟨he, by simp [hplot]⟩)

/-- Scenes are equivalent if neither has a NaN and they hold the same but for signs of zeros. -/
theorem isEquivalent_iff_unsigned : a.isEquivalent b = true ↔ a.IsNumeric ∧
    a.drawn.map Element.unsigned = b.drawn.map Element.unsigned ∧
      a.plotted.map Element.unsigned = b.plotted.map Element.unsigned := by
  rw [isEquivalent_iff, Element.map_beq_iff, Element.map_beq_iff, and_and_and_comm, isNumeric_iff]

theorem isEquivalent_symm (h : a.isEquivalent b = true) : b.isEquivalent a = true := by
  rw [isEquivalent_iff_unsigned] at h ⊢
  obtain ⟨hn, hd, hp⟩ := h
  rw [isNumeric_iff] at hn
  have hmap {es fs : List Element} (hes : ∀ e ∈ es, e.IsNumeric)
      (he : es.map Element.unsigned = fs.map Element.unsigned) : ∀ f ∈ fs, f.IsNumeric := by
    intro f hf
    obtain ⟨e, hm, hu⟩ := List.mem_map.1 (he ▸ List.mem_map_of_mem hf)
    rw [← Element.isNumeric_unsigned, ← hu, Element.isNumeric_unsigned]
    exact hes e hm
  exact ⟨isNumeric_iff.2 ⟨hmap hn.1 hd, hmap hn.2 hp⟩, hd.symm, hp.symm⟩

theorem isEquivalent_trans (hab : a.isEquivalent b = true) (hbc : b.isEquivalent c = true) :
    a.isEquivalent c = true := by
  rw [isEquivalent_iff_unsigned] at hab hbc ⊢
  exact ⟨hab.1, hab.2.1.trans hbc.2.1, hab.2.2.trans hbc.2.2⟩

theorem isEquivalent_self_iff : a.isEquivalent a = true ↔ a.IsNumeric := by
  rw [isEquivalent_iff_unsigned]
  exact and_iff_left ⟨rfl, rfl⟩

theorem drawn_of_interleaves (h : Interleaves a.drawn a.plotted b.elements) : b.drawn = a.drawn :=
  h.filter (fun e he => by simp [a.forall_mem_drawn e he]) fun e he => by simp [a.forall_mem_plotted e he]

theorem plotted_of_interleaves (h : Interleaves a.drawn a.plotted b.elements) :
    b.plotted = a.plotted :=
  h.symm.filter a.forall_mem_plotted a.forall_mem_drawn

/-- Neither numbers nor the mixing of plots with other elements matter. -/
theorem isEquivalent_of_interleaves (h : Interleaves a.drawn a.plotted b.elements) (c : Scene) :
    a.isEquivalent c = b.isEquivalent c ∧ c.isEquivalent a = c.isEquivalent b := by
  have hd := drawn_of_interleaves h
  have hp := plotted_of_interleaves h
  constructor
  · rw [Bool.eq_iff_iff, isEquivalent_iff, isEquivalent_iff, hd, hp]
  · rw [Bool.eq_iff_iff, isEquivalent_iff, isEquivalent_iff, hd, hp]

theorem axis?_unsigned (a : Scene) : a.axis?.map Axis.unsigned =
    ((a.plotted.map Element.unsigned).head?.bind Element.plot?).map (·.axis) := by
  rw [axis?_eq, List.head?_map]
  cases a.plotted.head? with
  | none => rfl
  | some e =>
    obtain ⟨figure, style⟩ := e
    cases figure with
    | shape | label | plot => rfl

theorem code_eq_of_isEquivalent (h : a.isEquivalent b = true) : a.code = b.code := by
  obtain ⟨-, hd, hp⟩ := isEquivalent_iff_unsigned.1 h
  have hcode {es fs : List Element} (he : es.map Element.unsigned = fs.map Element.unsigned) :
      es.map Element.code = fs.map Element.code := by
    have := congrArg (List.map Element.code) he
    simpa only [List.map_map, Function.comp_def, Element.code_unsigned] using this
  -- Of the axes of plots only that of the first one is written.
  have haxis : a.axis?.map Axis.unsigned = b.axis?.map Axis.unsigned := by
    rw [axis?_unsigned, axis?_unsigned, hp]
  apply code_congr (hcode hd) (hcode hp)
  have := congrArg (Option.map Axis.code) haxis
  simpa only [Option.map_map, Function.comp_def, Axis.code_unsigned] using this

/-- Equivalence of scenes is symmetric and transitive, and reflexive on scenes without NaN. It is the
same for the same elements under other numbers, and for plots that are mixed otherwise with the other
elements. Equivalent scenes have one code. -/
theorem isEquivalent_congruence (a b c : Scene) : a.isEquivalent b = b.isEquivalent a ∧
    (a.isEquivalent b = true → b.isEquivalent c = true → a.isEquivalent c = true) ∧
    (a.isEquivalent a = true ↔ a.IsNumeric) ∧
    (Interleaves a.drawn a.plotted b.elements →
      a.isEquivalent c = b.isEquivalent c ∧ c.isEquivalent a = c.isEquivalent b) ∧
    (a.isEquivalent b = true → a.code = b.code) :=
  ⟨Bool.eq_iff_iff.2 ⟨isEquivalent_symm, isEquivalent_symm⟩, isEquivalent_trans, isEquivalent_self_iff,
    fun h => isEquivalent_of_interleaves h c, code_eq_of_isEquivalent⟩

def disc (zero : Float) : Element := ⟨.shape (.circle ⟨zero, 1⟩ 2), {}⟩

def curve (zero : Float) : Element := ⟨.plot ⟨"x", { domain := ⟨zero, 1⟩ }⟩, {}⟩

/-- A circle between two plots. -/
def between : Scene := ofElements [curve 0, disc 0, curve 2]

/-- The same elements under other numbers, with the circle first. -/
def below : Scene := between.replaceAll [disc 0, curve 0, curve 2]

/-- These elements with negative zeros. -/
def signed : Scene := ofElements [disc (-0), curve (-0), curve 2]

theorem isEquivalent_congruence_signed : between.isEquivalent below = true ∧
    below.isEquivalent signed = true ∧ between.isEquivalent signed = true ∧
    Interleaves between.drawn between.plotted below.elements ∧
    signed.isEquivalent between = signed.isEquivalent below ∧
    below.code = signed.code ∧ between.code = below.code := by
  have hbelow : between.isEquivalent below = true := by decide +kernel
  have hsigned : below.isEquivalent signed = true := by decide +kernel
  have hmixed : Interleaves between.drawn between.plotted below.elements :=
    .left (.right (.right .nil))
  obtain ⟨-, htrans, -, hinter, hcode⟩ := isEquivalent_congruence between below signed
  obtain ⟨-, -, -, -, hcode'⟩ := isEquivalent_congruence below signed signed
  exact ⟨hbelow, hsigned, htrans hbelow hsigned, hmixed, (hinter hmixed).2, hcode' hsigned, hcode hbelow⟩

end Scene

end Sketch
