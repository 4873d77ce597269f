import Sketch.Preview
import Sketch.Proofs.Equivalence
import Sketch.Proofs.Failure
import Sketch.Proofs.Scene

/-!
What a preview shows of a scene: every element has its part, and a plot whose formula cannot be read
has a failure in its place. The picture follows from the elements that are no plots and from the plots,
so neither numbers nor the mixing of the two matter, and no failing plot disturbs what is drawn for
the others.
-/

namespace Sketch

/-- A plot whose formula can be read. -/
def Element.isTraceable (e : Element) : Bool :=
  e.plot?.any fun p => (Formula.ofText p.expression).toOption.isSome

/-- The axes are shown if the first plot shows them. -/
def Scene.showsAxes (s : Scene) : Bool := s.axis?.any (·.visible)

namespace Preview

variable {v : Viewport} {l : Limits} {s t : Scene} {p q : Preview} {e : Element} {r : Placed}
  {f : PlotFailure} {ls : List Primitive}

/-- What stands for an element that is no plot: one primitive in pixels, or lines for a grid. -/
inductive Shows (v : Viewport) : Element → List Primitive → Prop
  | circle (center : Point) (radius : Float) (style : Style) :
    Shows v ⟨.shape (.circle center radius), style⟩
      [.circle (v.toPixel center) (v.toPixelLength radius.abs) style]
  | rectangle (origin : Point) (width height : Float) (style : Style) :
    Shows v ⟨.shape (.rectangle origin width height), style⟩
      [.rectangle
        ⟨Number.smaller (v.toPixel origin).x (v.toPixel (origin.add ⟨width, height⟩)).x,
          Number.smaller (v.toPixel origin).y (v.toPixel (origin.add ⟨width, height⟩)).y⟩
        ⟨((v.toPixel origin).x - (v.toPixel (origin.add ⟨width, height⟩)).x).abs,
          ((v.toPixel origin).y - (v.toPixel (origin.add ⟨width, height⟩)).y).abs⟩ style]
  | line (start stop : Point) (style : Style) :
    Shows v ⟨.shape (.line start stop), style⟩ [.line (v.toPixel start) (v.toPixel stop) style]
  | label (label : Label) (style : Style) :
    Shows v ⟨.label label, style⟩ [.label (v.toPixel label.position) label.plain style]
  | grid (corner opposite : Point) (style : Style) {ls : List Primitive}
      (lines : ∀ line ∈ ls, ∃ start stop, line = .gridLine start stop) :
    Shows v ⟨.shape (.grid corner opposite), style⟩ ls

/-- What stands for the axes, given the plots: two lines from edge to edge of the canvas that meet in the
origin, if the first plot shows them. -/
inductive Crosses (v : Viewport) : List Element → List Primitive → Prop
  | none : Crosses v [] []
  | hidden {plot : Plot} {style : Style} {es : List Element} : plot.axis.visible = false →
    Crosses v (⟨.plot plot, style⟩ :: es) []
  | shown {plot : Plot} {style : Style} {es : List Element} : plot.axis.visible = true →
    Crosses v (⟨.plot plot, style⟩ :: es)
      [.axis ⟨0, v.origin.y⟩ ⟨v.size.width, v.origin.y⟩,
        .axis ⟨v.origin.x, v.size.height⟩ ⟨v.origin.x, 0⟩]

/-- The curve of a plot goes through the samples of its formula. -/
def Traces (v : Viewport) (l : Limits) (e : Element) (curve : Primitive) : Prop :=
  ∃ plot formula, e.plot? = some plot ∧ Formula.ofText plot.expression = .ok formula ∧
    curve = .curve
      ((formula.sample plot.axis.domain plot.axis.samples l).map (·.map v.toPixel)) e.style

/-- The failure of a plot tells its number, its expression, and why this is no formula. -/
def Reports (r : Placed) (f : PlotFailure) : Prop :=
  f.id = r.id ∧ ∃ plot, r.element.plot? = some plot ∧ f.expression = plot.expression ∧
    Formula.ofText plot.expression = .error f.rejection

/-- A preview in which every element of the scene has its part. -/
structure Accounts (v : Viewport) (l : Limits) (s : Scene) (p : Preview) : Prop where
  viewport : p.viewport = v
  primitives : ∃ shapes axes curves, List.Forall₂ (Shows v) s.drawn shapes ∧
    Crosses v s.plotted axes ∧
    List.Forall₂ (Traces v l) (s.plotted.filter (·.isTraceable)) curves ∧
    p.primitives = shapes.flatten ++ axes ++ curves
  failures : List.Forall₂ Reports (s.plots.filter (!·.element.isTraceable)) p.failures

/-! ### The parts of a preview -/

/-- The picture is put together from what is drawn for the elements that are no plots, and for the
plots. -/
theorem ofScene?_eq (v : Viewport) (l : Limits) (s : Scene) :
    ofScene? v l s = (s.drawn.mapM (ofElement? v)).map fun shapes =>
      { viewport := v
        primitives := shapes.flatten ++ (if s.showsAxes then axes v else []) ++
          s.plotted.filterMap (curve? v l)
        failures := s.plots.filterMap failure? } := by
  rw [Scene.showsAxes, ← Scene.map_others, ← Scene.map_plots, List.mapM_map, List.filterMap_map]
  unfold ofScene?
  change (s.others.mapM (ofElement? v ∘ (·.element))).bind _ = _
  cases s.others.mapM (ofElement? v ∘ (·.element)) with
  | none => rfl
  | some shapes =>
    cases s.axis? with
    | none => rfl
    | some axis => rfl

theorem eq_gridLine_of_mem {corner opposite : Point} (h : gridLines? v corner opposite = some ls) :
    ∀ line ∈ ls, ∃ start stop, line = .gridLine start stop := by
  unfold gridLines? at h
  dsimp only at h
  split at h
  · obtain rfl := Option.some.inj h
    exact List.forall_mem_nil _
  · obtain ⟨xs, -, h⟩ := Option.bind_eq_some_iff.1 h
    obtain ⟨ys, -, h⟩ := Option.bind_eq_some_iff.1 h
    obtain rfl := Option.some.inj h
    intro line hline
    rcases List.mem_append.1 hline with hline | hline
    · obtain ⟨x, -, rfl⟩ := List.mem_map.1 hline
      exact ⟨_, _, rfl⟩
    · obtain ⟨y, -, rfl⟩ := List.mem_map.1 hline
      exact ⟨_, _, rfl⟩

theorem shows_of_ofElement? (he : e.isPlot = false) (h : ofElement? v e = some ls) :
    Shows v e ls := by
  obtain ⟨figure, style⟩ := e
  cases figure with
  | shape shape =>
    cases shape with
    | circle center radius =>
      obtain rfl := Option.some.inj h
      exact .circle ..
    | rectangle origin width height =>
      obtain rfl := Option.some.inj h
      exact .rectangle ..
    | line start stop =>
      obtain rfl := Option.some.inj h
      exact .line ..
    | grid corner opposite => exact .grid _ _ _ (eq_gridLine_of_mem h)
  | label label =>
    obtain rfl := Option.some.inj h
    exact .label ..
  | plot plot => contradiction

theorem shows_drawn {shapes : List (List Primitive)} {es : List Element}
    (hes : ∀ e ∈ es, e.isPlot = false) (h : es.mapM (ofElement? v) = some shapes) :
    List.Forall₂ (Shows v) es shapes := by
  have hall := forall₂_of_mapM_eq_some h
  clear h
  induction hall with
  | nil => exact .nil
  | cons hx _ ih =>
    obtain ⟨he, hes⟩ := List.forall_mem_cons.1 hes
    exact .cons (shows_of_ofElement? he hx) (ih hes)

/-! ### Plots -/

/-- Whether the axes are shown is up to the first plot, be there a curve for it or not. -/
theorem crosses_axes (v : Viewport) (s : Scene) :
    Crosses v s.plotted (if s.showsAxes then axes v else []) := by
  rw [Scene.showsAxes, Scene.axis?_eq]
  cases hs : s.plotted with
  | nil => exact .none
  | cons e es =>
    obtain ⟨plot, style, rfl⟩ := Element.exists_eq_plot (s.forall_mem_plotted e (by simp [hs]))
    change Crosses v _ (if plot.axis.visible then axes v else [])
    cases hv : plot.axis.visible with
    | true => exact .shown hv
    | false => exact .hidden hv

theorem isTraceable_iff : e.isTraceable = true ↔
    ∃ plot formula, e.plot? = some plot ∧ Formula.ofText plot.expression = .ok formula := by
  rw [Element.isTraceable]
  cases e.plot? with
  | none => simp
  | some plot =>
    cases h : Formula.ofText plot.expression with
    | ok formula => simp [h, Except.toOption]
    | error cause => simp [h, Except.toOption]

theorem exists_error_of_not_isTraceable (hp : e.isPlot = true) (h : e.isTraceable = false) :
    ∃ plot cause, e.plot? = some plot ∧ Formula.ofText plot.expression = .error cause := by
  obtain ⟨plot, style, rfl⟩ := Element.exists_eq_plot hp
  cases hf : Formula.ofText plot.expression with
  | ok formula =>
    rw [isTraceable_iff.2 ⟨plot, formula, rfl, hf⟩] at h
    contradiction
  | error cause => exact ⟨plot, cause, rfl, hf⟩

theorem curve?_of_not_isTraceable (h : e.isTraceable = false) : curve? v l e = none := by
  change e.plot?.bind (fun plot => (Formula.ofText plot.expression).toOption.bind _) = none
  cases hp : e.plot? with
  | none => rfl
  | some plot =>
    cases hf : Formula.ofText plot.expression with
    | ok formula =>
      rw [isTraceable_iff.2 ⟨plot, formula, hp, hf⟩] at h
      contradiction
    | error cause =>
      rw [Option.bind_some, hf]
      rfl

theorem exists_curve?_of_isTraceable (v : Viewport) (l : Limits) (h : e.isTraceable = true) :
    ∃ curve, curve? v l e = some curve ∧ Traces v l e curve := by
  obtain ⟨plot, formula, hp, hf⟩ := isTraceable_iff.1 h
  refine ⟨_, ?_, plot, formula, hp, hf, rfl⟩
  change e.plot?.bind (fun plot => (Formula.ofText plot.expression).toOption.bind _) = _
  rw [hp, Option.bind_some, hf]
  rfl

theorem failure?_of_isTraceable (h : r.element.isTraceable = true) : failure? r = none := by
  obtain ⟨plot, formula, hp, hf⟩ := isTraceable_iff.1 h
  change r.element.plot?.bind _ = none
  rw [hp, Option.bind_some, hf]

theorem exists_failure?_of_not_isTraceable (hr : r.element.isPlot = true)
    (h : r.element.isTraceable = false) : ∃ f, failure? r = some f ∧ Reports r f := by
  obtain ⟨plot, cause, hp, hf⟩ := exists_error_of_not_isTraceable hr h
  refine ⟨⟨r.id, plot.expression, cause⟩, ?_, rfl, plot, hp, rfl, hf⟩
  change r.element.plot?.bind _ = _
  rw [hp, Option.bind_some, hf]
  rfl

theorem traces_filterMap (v : Viewport) (l : Limits) (es : List Element) :
    List.Forall₂ (Traces v l) (es.filter (·.isTraceable)) (es.filterMap (curve? v l)) := by
  induction es with
  | nil => exact .nil
  | cons e es ih =>
    cases h : e.isTraceable with
    | true =>
      obtain ⟨curve, hc, ht⟩ := exists_curve?_of_isTraceable v l h
      rw [List.filter_cons_of_pos h, List.filterMap_cons_some hc]
      exact .cons ht ih
    | false =>
      rw [List.filter_cons_of_neg (by simp [h]),
        List.filterMap_cons_none (curve?_of_not_isTraceable h)]
      exact ih

theorem reports_filterMap {rs : List Placed} (hrs : ∀ r ∈ rs, r.element.isPlot = true) :
    List.Forall₂ Reports (rs.filter (!·.element.isTraceable)) (rs.filterMap failure?) := by
  induction rs with
  | nil => exact .nil
  | cons r rs ih =>
    obtain ⟨hr, hrs⟩ := List.forall_mem_cons.1 hrs
    cases h : r.element.isTraceable with
    | true =>
      rw [List.filter_cons_of_neg (by simp [h]), List.filterMap_cons_none (failure?_of_isTraceable h)]
      exact ih hrs
    | false =>
      obtain ⟨f, hf, hreports⟩ := exists_failure?_of_not_isTraceable hr h
      rw [List.filter_cons_of_pos (by simp [h]), List.filterMap_cons_some hf]
      exact .cons hreports (ih hrs)

theorem accounts_of_ofScene? (h : ofScene? v l s = some p) : p.Accounts v l s := by
  rw [ofScene?_eq] at h
  obtain ⟨shapes, hshapes, rfl⟩ := Option.map_eq_some_iff.1 h
  refine ⟨rfl, ⟨shapes, _, _, ?_, crosses_axes v s, traces_filterMap v l _, rfl⟩,
    reports_filterMap fun r hr => ?_⟩
  · exact shows_drawn s.forall_mem_drawn hshapes
  · exact (List.mem_filter.1 hr).2

/-! ### Other scenes with the same picture -/

/-- The picture depends on what is no plot, on whether the axes are shown, and on the curves. -/
theorem exists_ofScene?_of_eq (hd : t.drawn = s.drawn) (ha : t.showsAxes = s.showsAxes)
    (hc : t.plotted.filterMap (curve? v l) = s.plotted.filterMap (curve? v l))
    (h : ofScene? v l s = some p) :
    ∃ q, ofScene? v l t = some q ∧ q.primitives = p.primitives ∧
      q.failures = t.plots.filterMap failure? := by
  rw [ofScene?_eq] at h
  obtain ⟨shapes, hshapes, rfl⟩ := Option.map_eq_some_iff.1 h
  rw [ofScene?_eq, hd, hshapes, ha, hc]
  exact ⟨_, rfl, rfl, rfl⟩

theorem exists_ofScene?_of_interleaves (ht : Interleaves s.drawn s.plotted t.elements)
    (h : ofScene? v l s = some p) : ∃ q, ofScene? v l t = some q ∧ q.primitives = p.primitives := by
  have hp := Scene.plotted_of_interleaves ht
  have ha : t.showsAxes = s.showsAxes := by
    rw [Scene.showsAxes, Scene.axis?_eq, hp, ← Scene.axis?_eq, Scene.showsAxes]
  obtain ⟨q, hq, hprimitives, -⟩ :=
    exists_ofScene?_of_eq (Scene.drawn_of_interleaves ht) ha (by rw [hp]) h
  exact ⟨q, hq, hprimitives⟩

/-- Removing a plot leaves the other elements alone. -/
theorem others_remove (hid : (s.placed.map (·.id)).Nodup) (hr : r ∈ s.plots) :
    (s.remove r.id).others = s.others := by
  obtain ⟨hmem, hplot⟩ := List.mem_filter.1 hr
  rw [Scene.others, Scene.remove, List.filter_comm]
  change s.others.filter (·.id ≠ r.id) = s.others
  rw [List.filter_eq_self]
  intro o ho
  obtain ⟨homem, ho⟩ := List.mem_filter.1 ho
  refine decide_eq_true fun he => ?_
  obtain rfl := List.inj_on_of_nodup_map hid homem hmem he
  rw [hplot] at ho
  contradiction

theorem plots_remove (hid : (s.placed.map (·.id)).Nodup) {before after : List Placed}
    (hs : s.plots = before ++ r :: after) : (s.remove r.id).plots = before ++ after := by
  rw [Scene.plots, Scene.remove, List.filter_comm]
  change s.plots.filter (·.id ≠ r.id) = _
  rw [hs]
  apply Scene.filter_id_ne
  exact hs ▸ hid.sublist (List.filter_sublist.map _)

theorem exists_plots_eq (hr : r ∈ s.plots.tail) :
    ∃ before after, before ≠ [] ∧ s.plots = before ++ r :: after := by
  cases hs : s.plots with
  | nil =>
    rw [hs] at hr
    contradiction
  | cons first rest =>
    rw [hs, List.tail_cons] at hr
    obtain ⟨before, after, rfl⟩ := List.append_of_mem hr
    exact ⟨first :: before, after, List.cons_ne_nil _ _, rfl⟩

/-- A plot without a curve is removed, and its failure with it. The first plot is another one, and its
axis still counts. -/
theorem exists_ofScene?_remove (hid : (s.placed.map (·.id)).Nodup) (hr : r ∈ s.plots.tail)
    (hf : r.element.isTraceable = false) (h : ofScene? v l s = some p) :
    ∃ q before f after, ofScene? v l (s.remove r.id) = some q ∧ q.primitives = p.primitives ∧
      Reports r f ∧ p.failures = before ++ f :: after ∧ q.failures = before ++ after := by
  obtain ⟨before, after, hne, hplots⟩ := exists_plots_eq hr
  have hmem : r ∈ s.plots := hplots ▸ List.mem_append_right _ (List.mem_cons_self ..)
  have hremove := plots_remove hid hplots
  have hd : (s.remove r.id).drawn = s.drawn := by
    rw [← Scene.map_others, others_remove hid hmem, Scene.map_others]
  have ha : (s.remove r.id).showsAxes = s.showsAxes := by
    rw [Scene.showsAxes, Scene.axis?, hremove, Scene.showsAxes, Scene.axis?, hplots,
      List.head?_append_of_ne_nil _ hne, List.head?_append_of_ne_nil _ hne]
  have hc : (s.remove r.id).plotted.filterMap (curve? v l) = s.plotted.filterMap (curve? v l) := by
    rw [← Scene.map_plots, ← Scene.map_plots, hremove, hplots, List.map_append, List.map_append,
      List.map_cons, List.filterMap_append, List.filterMap_append,
      List.filterMap_cons_none (curve?_of_not_isTraceable hf)]
  obtain ⟨f, hfail, hreports⟩ :=
    exists_failure?_of_not_isTraceable (List.mem_filter.1 hmem).2 hf
  obtain ⟨q, hq, hprimitives, hfailures⟩ := exists_ofScene?_of_eq hd ha hc h
  have hp : p.failures = s.plots.filterMap failure? := by
    rw [ofScene?_eq] at h
    obtain ⟨shapes, -, rfl⟩ := Option.map_eq_some_iff.1 h
    rfl
  refine ⟨q, before.filterMap failure?, f, after.filterMap failure?, hq, hprimitives, hreports,
    ?_, ?_⟩
  · rw [hp, hplots, List.filterMap_append, List.filterMap_cons_some hfail]
  · rw [hfailures, hremove, List.filterMap_append]

/-- If there is a preview of a scene, then every element has its part in it. The same elements under
other numbers, or with their plots mixed otherwise with the rest, have the same picture. If a plot that
cannot be traced is removed, and it was not the first one, then its failure goes and the picture stays;
numbers name one element each, as they do in every run. -/
theorem accounts_for_elements (v : Viewport) (l : Limits) (s : Scene) (p : Preview)
    (h : ofScene? v l s = some p) :
    p.Accounts v l s ∧
      (∀ t : Scene, Interleaves s.drawn s.plotted t.elements →
        ∃ q, ofScene? v l t = some q ∧ q.primitives = p.primitives) ∧
      ((s.placed.map (·.id)).Nodup → ∀ r ∈ s.plots.tail, r.element.isTraceable = false →
        ∃ q before f after, ofScene? v l (s.remove r.id) = some q ∧ q.primitives = p.primitives ∧
          Reports r f ∧ p.failures = before ++ f :: after ∧ q.failures = before ++ after) :=
  ⟨accounts_of_ofScene? h, fun _ ht => exists_ofScene?_of_interleaves ht h,
    fun hid _ hr hf => exists_ofScene?_remove hid hr hf h⟩

/-- A plot without a formula among shapes, after a plot that shows the axes. -/
def garbled : Scene := Scene.run [.replaceAll [
  ⟨.plot ⟨"x", {}⟩, {}⟩,
  ⟨.shape (.grid ⟨0, 0⟩ ⟨2, 1⟩), {}⟩,
  ⟨.plot ⟨"foo(x)", {}⟩, {}⟩,
  ⟨.shape (.circle ⟨0, 0⟩ 1), {}⟩]]

/-- The same scene without that plot, as the user gets it. -/
theorem accounts_for_elements_garbled : ∃ p q f, ofScene? .standard {} garbled = some p ∧
    p.Accounts .standard {} garbled ∧ p.failures = [f] ∧ f.id = ⟨3⟩ ∧ f.expression = "foo(x)" ∧
    ofScene? .standard {} (garbled.remove ⟨3⟩) = some q ∧ q.primitives = p.primitives ∧
    q.failures = [] := by
  have hsome : (ofScene? .standard {} garbled).isSome = true := by
    rw [ofScene?_eq, Option.isSome_map]
    decide +kernel
  obtain ⟨p, hp⟩ := Option.isSome_iff_exists.1 hsome
  obtain ⟨haccounts, -, hremove⟩ := accounts_for_elements .standard {} garbled p hp
  have hfoo : Element.isTraceable ⟨.plot ⟨"foo(x)", {}⟩, {}⟩ = false := by decide +kernel
  obtain ⟨q, before, f, after, hq, hprimitives, ⟨hid, plot, hplot, hexpression, -⟩, hpf, hqf⟩ :=
    hremove (Scene.nodup_ids_run _) ⟨⟨3⟩, ⟨.plot ⟨"foo(x)", {}⟩, {}⟩⟩ (List.mem_cons_self ..) hfoo
  obtain rfl := Option.some.inj hplot
  have hone : (garbled.plots.filter (!·.element.isTraceable)).length = 1 := by decide +kernel
  have hlength := haccounts.failures.length_eq
  rw [hone, hpf, List.length_append, List.length_cons] at hlength
  obtain rfl : before = [] := List.length_eq_zero_iff.1 (by omega)
  obtain rfl : after = [] := List.length_eq_zero_iff.1 (by omega)
  exact ⟨p, q, f, hp, haccounts, hpf, hid, hexpression, hq, hprimitives, hqf⟩

end Preview

end Sketch
