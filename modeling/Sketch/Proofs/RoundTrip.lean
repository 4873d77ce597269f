import Sketch.Proofs.Code.Scene

/-!
The way of a scene into code and back. What the code of a scene keeps is read again without a
warning, and the scene that is read has the same code.
-/

namespace Sketch

/-! ### Expressions that stay in their braces -/

/-- Expressions that code keeps as they are: trimmed, on one line, without a comment, and balanced. -/
structure Plot.IsWellFormed (p : Plot) : Prop where
  trim_eq : Text.trim p.expression.toList = p.expression.toList
  break_not_mem : '\n' ∉ p.expression.toList
  percent_not_mem : '%' ∉ Braces.unescaped p.expression.toList
  balanced : Braces.Balanced 0 p.expression.toList

instance (p : Plot) : Decidable p.IsWellFormed :=
  decidable_of_iff (Text.trim p.expression.toList = p.expression.toList ∧
    '\n' ∉ p.expression.toList ∧ '%' ∉ Braces.unescaped p.expression.toList ∧
      Braces.Balanced 0 p.expression.toList)
    ⟨fun ⟨ht, hn, hp, hb⟩ => ⟨ht, hn, hp, hb⟩, fun ⟨ht, hn, hp, hb⟩ => ⟨ht, hn, hp, hb⟩⟩

/-! ### The code of what is read -/

@[simp] theorem Point.code_unsigned (p : Point) : p.unsigned.code = p.code := by
  rw [code, code, unsigned, Number.code_unsigned, Number.code_unsigned]

@[simp] theorem Axis.code_unsigned (a : Axis) : a.unsigned.code = a.code := by
  unfold code unsigned
  dsimp only
  rw [Number.code_unsigned, Number.code_unsigned]

@[simp] theorem Shape.code_unsigned (s : Style) (t : Shape) : t.unsigned.code s = t.code s := by
  cases t with
  | circle center radius => simp only [unsigned, code, Point.code_unsigned, Number.code_unsigned]
  | rectangle origin width height =>
    have hc := Point.code_unsigned ⟨width, height⟩
    unfold Point.unsigned at hc
    simp only [unsigned, code, Point.code_unsigned, hc]
  | line start stop => simp only [unsigned, code, Point.code_unsigned]
  | grid corner opposite => simp only [unsigned, code, Point.code_unsigned]

@[simp] theorem Element.code_reread (axis : Axis) (e : Element) : (e.reread axis).code = e.code := by
  obtain ⟨figure, style⟩ := e
  cases figure with
  | shape t =>
    cases t with
    | circle center radius => exact Shape.code_unsigned style (.circle center radius)
    | rectangle origin width height => exact Shape.code_unsigned style (.rectangle origin width height)
    | line start stop => exact Shape.code_unsigned style (.line start stop)
    | grid corner opposite => exact Shape.code_unsigned style (.grid corner opposite)
  | label l =>
    simp only [reread, code, Label.content_reread, Label.position_reread, Point.code_unsigned]
  | plot p => rfl

/-! ### What is read from the code of a scene -/

namespace Scene

open Reading (Yields)

variable {s : Scene} {es fs : List Element} {ls : List (List Char)} {axis : Axis}

/-- The axis of a scene as it is read. -/
def openedAxis (s : Scene) : Axis := (s.axis?.getD {}).unsigned

/-- The elements of a scene as they are read from its code, in the order of their lines. -/
def reread (s : Scene) : List Element := (s.drawn ++ s.plotted).map (Element.reread s.openedAxis)

theorem isFinite_of_mem_drawn (h : s.IsFinite) : ∀ e ∈ s.drawn, e.IsFinite ∧ e.isPlot = false := by
  intro e he
  obtain ⟨hm, hp⟩ := List.mem_filter.1 he
  exact ⟨h e hm, by simpa using hp⟩

theorem isFinite_of_mem_plotted (h : s.IsFinite) : ∀ e ∈ s.plotted, e.IsFinite ∧ e.isPlot = true := by
  intro e he
  obtain ⟨hm, hp⟩ := List.mem_filter.1 he
  exact ⟨h e hm, hp⟩

theorem exists_plot_of_axis? (ha : s.axis? = some axis) :
    ∃ e ∈ s.elements, ∃ p, e.figure = .plot p ∧ p.axis = axis := by
  rw [axis?_eq, Option.map_eq_some_iff] at ha
  obtain ⟨p, hp, rfl⟩ := ha
  obtain ⟨e, he, hep⟩ := Option.bind_eq_some_iff.1 hp
  obtain ⟨hm, hplot⟩ := List.mem_filter.1 (List.mem_of_mem_head? he)
  obtain ⟨q, style, rfl⟩ := Element.exists_eq_plot hplot
  cases hep
  exact ⟨_, hm, p, rfl, rfl⟩

theorem isFinite_of_axis? (h : s.IsFinite) (ha : s.axis? = some axis) : axis.IsFinite := by
  obtain ⟨e, he, p, hp, rfl⟩ := exists_plot_of_axis? ha
  have hf := (h e he).figure
  rw [hp] at hf
  exact hf

theorem yields_drawn (h : ∀ e ∈ es, e.IsFinite ∧ e.isPlot = false) (hr : Yields axis ls fs)
    (a : Axis) : Yields axis ((es.map fun e => "  " ++ e.code).flatMap
      (fun l => Text.lines (l.toList ++ ['\n'])) ++ ls) (es.map (Element.reread a) ++ fs) := by
  induction es with
  | nil => exact hr
  | cons e es ih =>
    obtain ⟨he, hp⟩ := h e (List.mem_cons_self ..)
    rw [List.map_cons, List.flatMap_cons, lines_code_element hp "  " (by decide), List.map_cons,
      e.reread_eq_reread hp a axis]
    refine .element (Reading.ofLine_code he hp Reading.isBlank_indent.1 axis) ?_
    exact ih fun d hd => h d (List.mem_cons_of_mem _ hd)

theorem yields_plotted (h : ∀ e ∈ es, e.IsFinite ∧ e.isPlot = true)
    (hw : ∀ e ∈ es, ∀ p, e.figure = .plot p → p.IsWellFormed) (hr : Yields axis ls fs) :
    Yields axis ((es.map fun e => "    " ++ e.code).flatMap
      (fun l => Text.lines (l.toList ++ ['\n'])) ++ ls) (es.map (Element.reread axis) ++ fs) := by
  induction es with
  | nil => exact hr
  | cons e es ih =>
    obtain ⟨he, hp⟩ := h e (List.mem_cons_self ..)
    have hwe := hw e (List.mem_cons_self ..)
    have hih := ih (fun d hd => h d (List.mem_cons_of_mem _ hd))
      (fun d hd => hw d (List.mem_cons_of_mem _ hd))
    obtain ⟨p, style, rfl⟩ := Element.exists_eq_plot hp
    obtain ⟨ht, hn, hpc, hb⟩ := hwe p rfl
    rw [List.map_cons, List.flatMap_cons, Reading.lines_code_plot style "    " (by decide)
      (Reading.lines_plotRest hn)]
    have hread := Reading.ofLine_plotRest he.style Reading.isBlank_indent.2 hpc hb axis
    rw [ht, String.ofList_toList] at hread
    exact .element hread hih

theorem plotted_eq_nil (h : s.axis? = none) : s.plotted = [] := by
  cases hp : s.plotted with
  | nil => rfl
  | cons e es =>
    have he : e ∈ s.plotted := hp ▸ List.mem_cons_self ..
    obtain ⟨p, style, rfl⟩ := Element.exists_eq_plot (List.mem_filter.1 he).2
    rw [axis?_eq, hp] at h
    contradiction

theorem yields_code (h : s.IsFinite)
    (hw : ∀ e ∈ s.elements, ∀ p, e.figure = .plot p → p.IsWellFormed) :
    Yields {} (Text.lines s.code.toList) s.reread := by
  have hend : Yields {} [Command.pictureEnd.toList] [] :=
    (Yields.nil {}).nothing (Reading.ofLine_pictureEnd {})
  have hp : ∀ e ∈ s.plotted, ∀ p, e.figure = .plot p → p.IsWellFormed := fun e he =>
    hw e (List.mem_filter.1 he).1
  rw [lines_code, codeLines_eq, reread, List.map_append]
  simp only [List.flatMap_append, List.append_assoc]
  refine .nothing (Reading.ofLine_pictureBegin {}) ?_
  refine yields_drawn (isFinite_of_mem_drawn h) ?_ s.openedAxis
  cases ha : s.axis? with
  | none =>
    rw [plotted_eq_nil ha]
    exact hend
  | some axis =>
    have hf := isFinite_of_axis? h ha
    have ho : s.openedAxis = axis.unsigned := by
      rw [openedAxis, ha]
      rfl
    simp only [Option.map_some, Option.getD_some, blockLines, List.flatMap_append, List.append_assoc,
      List.flatMap_singleton, Reading.lines_axisBegin hf, ho]
    refine .opening (Reading.ofLine_axisBegin hf {}) ?_
    have hall := yields_plotted (isFinite_of_mem_plotted h) hp
      (hend.opening (Reading.ofLine_axisEnd axis.unsigned))
    rw [List.append_nil] at hall
    exact hall

/-! ### The scene that is read -/

/-- What the code of a scene keeps of it. -/
def normal (s : Scene) : Scene :=
  { s with placed := s.placed.map fun p => { p with element := p.element.normal (s.axis?.getD {}) } }

theorem elements_normal (s : Scene) :
    s.normal.elements = s.elements.map (Element.normal (s.axis?.getD {})) := by
  rw [elements, normal, List.map_map, elements, List.map_map]
  rfl

theorem length_reread (s : Scene) : s.reread.length = s.size := by
  rw [reread, List.length_map, List.length_append, length_drawn_add_length_plotted]

variable {t : Scene}

theorem drawn_of_reread (h : t.elements = s.reread) :
    t.drawn = s.drawn.map (Element.reread s.openedAxis) := by
  have hd : s.drawn.filter (!·.isPlot) = s.drawn := List.filter_eq_self.2 fun e he =>
    (List.mem_filter.1 he).2
  have hp : s.plotted.filter (!·.isPlot) = [] := List.filter_eq_nil_iff.2 fun e he => by
    simpa using (List.mem_filter.1 he).2
  rw [drawn, h, reread, List.filter_map]
  simp only [Function.comp_def, Element.isPlot_reread, List.filter_append, hd, hp, List.append_nil]

theorem plotted_of_reread (h : t.elements = s.reread) :
    t.plotted = s.plotted.map (Element.reread s.openedAxis) := by
  have hd : s.drawn.filter (·.isPlot) = [] := List.filter_eq_nil_iff.2 fun e he => by
    simpa using (List.mem_filter.1 he).2
  have hp : s.plotted.filter (·.isPlot) = s.plotted := List.filter_eq_self.2 fun e he =>
    (List.mem_filter.1 he).2
  rw [plotted, h, reread, List.filter_map]
  simp only [Function.comp_def, Element.isPlot_reread, List.filter_append, hd, hp, List.nil_append]

theorem axis?_of_reread (h : t.elements = s.reread) : t.axis? = s.axis?.map Axis.unsigned := by
  have ha := axis?_eq s
  rw [axis?_eq, plotted_of_reread h, List.head?_map]
  cases hp : s.plotted with
  | nil =>
    rw [hp] at ha
    rw [ha]
    rfl
  | cons e es =>
    have hplot := (List.mem_filter.1 (hp ▸ List.mem_cons_self .. : e ∈ s.plotted)).2
    rw [hp] at ha
    obtain ⟨p, style, rfl⟩ := Element.exists_eq_plot hplot
    have ho : s.openedAxis = p.axis.unsigned := by
      rw [openedAxis, ha]
      rfl
    rw [ha, ho]
    rfl

theorem code_eq_of_reread (h : t.elements = s.reread) : t.code = s.code := by
  apply code_congr
  · rw [drawn_of_reread h, List.map_map]
    simp only [Function.comp_def, Element.code_reread]
  · rw [plotted_of_reread h, List.map_map]
    simp only [Function.comp_def, Element.code_reread]
  · rw [axis?_of_reread h, Option.map_map]
    simp only [Function.comp_def, Axis.code_unsigned]

theorem map_beq_map {es : List Element} {f g : Element → Element}
    (h : ∀ e ∈ es, (f e == g e) = true) : (es.map f == es.map g) = true := by
  induction es with
  | nil => rfl
  | cons e es ih =>
    rw [List.map_cons, List.map_cons, List.cons_beq_cons, h e (List.mem_cons_self ..),
      ih fun d hd => h d (List.mem_cons_of_mem _ hd)]
    rfl

theorem isEquivalent_of_reread {f : Element → Element} {u : Scene} (h : t.elements = s.reread)
    (hu : u.elements = s.elements.map f) (hf : ∀ e, (f e).isPlot = e.isPlot)
    (hbeq : ∀ e ∈ s.elements, (e.reread s.openedAxis == f e) = true) : t.isEquivalent u = true := by
  have hd : u.drawn = s.drawn.map f := by
    rw [drawn, hu, List.filter_map]
    simp only [Function.comp_def, hf]
    rfl
  have hp : u.plotted = s.plotted.map f := by
    rw [plotted, hu, List.filter_map]
    simp only [Function.comp_def, hf]
    rfl
  rw [isEquivalent_iff, drawn_of_reread h, plotted_of_reread h, hd, hp]
  constructor
  · exact map_beq_map fun e he => hbeq e (List.mem_filter.1 he).1
  · exact map_beq_map fun e he => hbeq e (List.mem_filter.1 he).1

theorem isFinite_axis (h : s.IsFinite) : (s.axis?.getD {}).IsFinite := by
  cases ha : s.axis? with
  | none => exact ⟨by decide, by decide⟩
  | some axis => exact isFinite_of_axis? h ha

theorem isEquivalent_normal (hs : s.IsFinite) (h : t.elements = s.reread) :
    t.isEquivalent s.normal = true := by
  have ha := isFinite_axis hs
  refine isEquivalent_of_reread h (elements_normal s) (Element.isPlot_normal _) fun e he => ?_
  exact Element.reread_beq_normal (hs e he) ha (Axis.unsigned_beq ha)

theorem isEquivalent_self (hs : s.IsFinite) (h : t.elements = s.reread)
    (hgrid : ∀ e ∈ s.elements, ∀ corner opposite, e.figure = .shape (.grid corner opposite) →
      e.style.isDefault = true)
    (hplot : ∀ e ∈ s.elements, ∀ f ∈ s.elements, ∀ p q, e.figure = .plot p → f.figure = .plot q →
      (p.axis == q.axis) = true) : t.isEquivalent s = true := by
  refine isEquivalent_of_reread h (List.map_id _).symm (fun _ => rfl) fun e he => ?_
  apply Element.reread_beq (hs e he)
  · intro corner opposite hf
    rw [Style.eq_of_isDefault (hgrid e he corner opposite hf)]
    exact Style.beq_self Style.isFinite_default
  · intro q hq
    have hax := isFinite_axis hs
    refine Axis.beq_trans (Axis.unsigned_beq hax) ?_
    cases ha : s.axis? with
    | none =>
      have hm : e ∈ s.plotted := List.mem_filter.2 ⟨he, by simp [Element.isPlot, Element.kind, hq,
        Figure.kind]⟩
      rw [plotted_eq_nil ha] at hm
      contradiction
    | some axis =>
      obtain ⟨f, hf, p, hp, rfl⟩ := exists_plot_of_axis? ha
      exact hplot f hf e he p q hp hq

/-- The code of a scene is read without a warning as what it keeps of the scene: all of it, if the
grids look the same and the plots share their axis. Its code is the code that was read. -/
theorem round_trip (s : Scene) (hs : s.IsFinite)
    (hw : ∀ e ∈ s.elements, ∀ p, e.figure = .plot p → p.IsWellFormed) :
    (Document.ofText s.code).diagnostics = [] ∧ (Document.ofText s.code).skipped = 0 ∧
      (Document.ofText s.code).recognized = s.size ∧
      ((Document.ofText s.code).applyTo {}).isEquivalent s.normal = true ∧
      ((∀ e ∈ s.elements, ∀ corner opposite, e.figure = .shape (.grid corner opposite) →
          e.style.isDefault = true) →
        (∀ e ∈ s.elements, ∀ f ∈ s.elements, ∀ p q, e.figure = .plot p → f.figure = .plot q →
          (p.axis == q.axis) = true) →
        ((Document.ofText s.code).applyTo {}).isEquivalent s = true) ∧
      ((Document.ofText s.code).applyTo {}).code = s.code := by
  obtain ⟨he, hd⟩ := Document.elements_ofText (yields_code hs hw)
  have ht : ((Document.ofText s.code).applyTo {}).elements = s.reread := by
    rw [Document.elements_applyTo_empty, he]
  refine ⟨hd, ?_, ?_, isEquivalent_normal hs ht, isEquivalent_self hs ht, code_eq_of_reread ht⟩
  · rw [Document.skipped_eq, hd, List.length_nil]
  · rw [Document.recognized, he, length_reread]

/-- A label that needs escapes, and two plots whose axes differ in the sign of a zero. -/
def mixed : Scene := .ofElements [
  { figure := .plot {
      expression := "\\frac\x7bx\x7d\x7b2\x7d\\\x7d"
      axis := { domain := ⟨-0.0, 2.5⟩, samples := 7, visible := false } }
    style := { lineStyle := .dashed, opacity := .ofNat 29 } },
  { figure := .label { position := ⟨-0.0, 1e21⟩, text := "50% of \x7b\n\x7d\x7d\\" }
    style := { color := .white } },
  { figure := .shape (.grid ⟨-3, -3⟩ ⟨3, 3⟩) },
  { figure := .plot {
      expression := "x^2"
      axis := { domain := ⟨0, 2.5⟩, samples := 7, visible := false } } },
  { figure := .shape (.circle ⟨0.1, -0.0⟩ 1e-7)
    style := { fill := some .black, lineWidth := .ofFloat 0.5, arrowHead := .both } }]

theorem round_trip_mixed : mixed.IsFinite ∧
    (∀ e ∈ mixed.elements, ∀ p, e.figure = .plot p → p.IsWellFormed) ∧
    (Document.ofText mixed.code).diagnostics = [] ∧ (Document.ofText mixed.code).recognized = 5 ∧
    ((Document.ofText mixed.code).applyTo {}).isEquivalent mixed = true ∧
    ((Document.ofText mixed.code).applyTo {}).code = mixed.code := by
  have hs : mixed.IsFinite := by decide +kernel
  have hw : ∀ e ∈ mixed.elements, ∀ p, e.figure = .plot p → p.IsWellFormed := by decide +kernel
  have hgrid : ∀ e ∈ mixed.elements, ∀ corner opposite,
      e.figure = .shape (.grid corner opposite) → e.style.isDefault = true := by
    intro e he corner opposite hf
    simp only [mixed, elements_ofElements, List.mem_cons, List.not_mem_nil, or_false] at he
    rcases he with rfl | rfl | rfl | rfl | rfl
    · cases hf
    · cases hf
    · exact Style.beq_self Style.isFinite_default
    · cases hf
    · cases hf
  have hplot : ∀ e ∈ mixed.elements, ∀ f ∈ mixed.elements, ∀ p q, e.figure = .plot p →
      f.figure = .plot q → (p.axis == q.axis) = true := by
    have haxis : ∀ e ∈ mixed.elements, ∀ p, e.figure = .plot p →
        (p.axis == ⟨⟨0, 2.5⟩, 7, false⟩) = true ∧ (⟨⟨0, 2.5⟩, 7, false⟩ == p.axis) = true := by
      intro e he p hp
      simp only [mixed, elements_ofElements, List.mem_cons, List.not_mem_nil, or_false] at he
      rcases he with rfl | rfl | rfl | rfl | rfl
      · cases hp
        decide
      · cases hp
      · cases hp
      · cases hp
        decide
      · cases hp
    intro e he f hf p q hp hq
    exact Axis.beq_trans (haxis e he p hp).1 (haxis f hf q hq).2
  obtain ⟨hd, -, hr, -, heq, hc⟩ := round_trip mixed hs hw
  exact ⟨hs, hw, hd, hr, heq hgrid hplot, hc⟩

end Scene

end Sketch
