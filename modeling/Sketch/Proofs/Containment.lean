import Sketch.Proofs.RoundTrip

/-!
When nothing breaks out of its braces. Labels never do, for their text is escaped. An expression is
written as it is: its plot keeps to itself if the first line ends the command and the other lines
frame nothing but the picture.
-/

namespace Sketch

/-- Expressions whose code is one element and nothing else: the first line ends the command, and
every other line is one that may stand between commands. -/
def Plot.IsContained (p : Plot) : Prop :=
  ∃ first others, Text.lines (Reading.plotRest p) = first :: others ∧ Command.EndsPlot first ∧
    ∀ l ∈ others, Reading.IsFrame l

/-- An expression on one line and without a comment is contained exactly if it is balanced. -/
theorem Plot.isContained_iff {p : Plot} (hn : '\n' ∉ p.expression.toList)
    (hp : '%' ∉ Braces.unescaped p.expression.toList) :
    p.IsContained ↔ Braces.Balanced 0 p.expression.toList := by
  rw [← Reading.endsPlot_plotRest_iff hp]
  constructor
  · rintro ⟨first, others, hl, he, -⟩
    rw [Reading.lines_plotRest hn] at hl
    cases hl
    exact he
  · intro he
    exact ⟨_, [], Reading.lines_plotRest hn, he, List.forall_mem_nil _⟩

namespace Reading

variable {l : List Char}

/-- A line that is neither an element nor a warning frames the picture. -/
theorem isFrame_of_ofLine (axis : Axis) (offset : Nat) (he : (ofLine axis offset l).element? = none)
    (hd : (ofLine axis offset l).diagnostic? = none) : IsFrame l := by
  by_contra hl
  rcases ofLine_cases hl axis offset with ⟨e, hr⟩ | ⟨d, hr⟩
  · rw [hr] at he
    contradiction
  · rw [hr] at hd
    contradiction

end Reading

namespace Scene

open Reading (IsFrame ofLine)

variable {s : Scene}

def linesOf (indent : String) (e : Element) : List (List Char) :=
  Text.lines ((indent ++ e.code).toList ++ ['\n'])

/-- Around the elements there are only lines that frame them. -/
theorem exists_lines_code_eq (hs : s.IsFinite) : ∃ before between after : List (List Char),
    (∀ l ∈ before, IsFrame l) ∧ (∀ l ∈ between, IsFrame l) ∧ (∀ l ∈ after, IsFrame l) ∧
    Text.lines s.code.toList = before ++ (s.drawn.flatMap (linesOf "  ") ++
      (between ++ (s.plotted.flatMap (linesOf "    ") ++ after))) := by
  have hbegin : IsFrame (Command.pictureBegin.toList ++ ['\n']) :=
    Reading.isFrame_of_ofLine {} 0 rfl rfl
  have hend : IsFrame Command.pictureEnd.toList :=
    Reading.isFrame_of_ofLine {} 0 rfl rfl
  rw [lines_code, codeLines_eq]
  simp only [List.flatMap_append, List.append_assoc, List.flatMap_map]
  cases ha : s.axis? with
  | none =>
    refine ⟨[_], [], [_], List.forall_mem_singleton.2 hbegin, List.forall_mem_nil _,
      List.forall_mem_singleton.2 hend, ?_⟩
    rw [plotted_eq_nil ha]
    rfl
  | some axis =>
    have hf := isFinite_of_axis? hs ha
    have hopen : IsFrame (("  " ++ Command.axisBegin ++ axis.code).toList ++ ['\n']) := by
      have hr := Reading.ofLine_axisBegin hf {} 0
      apply Reading.isFrame_of_ofLine {} 0
      · rw [hr]
        rfl
      · rw [hr]
        rfl
    have hclose : IsFrame (("  " ++ Command.axisEnd).toList ++ ['\n']) :=
      Reading.isFrame_of_ofLine {} 0 rfl rfl
    refine ⟨[_], [_], [_, _], List.forall_mem_singleton.2 hbegin, List.forall_mem_singleton.2 hopen,
      List.forall_mem_cons.2 ⟨hclose, List.forall_mem_singleton.2 hend⟩, ?_⟩
    simp only [Option.map_some, Option.getD_some, blockLines, List.flatMap_append, List.append_assoc,
      List.flatMap_map, List.flatMap_singleton, Reading.lines_axisBegin hf]
    rfl

theorem linesOf_drawn {e : Element} (hp : e.isPlot = false) :
    linesOf "  " e = ["  ".toList ++ (e.code.toList ++ ['\n'])] :=
  lines_code_element hp "  " (by decide)

/-- How many lines a plot has that are not its own. -/
def strayLines (e : Element) : Nat :=
  match e.figure with
  | .plot p => (Text.lines (Reading.plotRest p)).tail.countP (¬IsFrame ·)
  | _ => 0

theorem strayLines_eq_zero {e : Element} (h : ∀ p, e.figure = .plot p → p.IsContained) :
    strayLines e = 0 := by
  obtain ⟨figure, style⟩ := e
  cases figure with
  | shape t => rfl
  | label l => rfl
  | plot p =>
    obtain ⟨first, others, hl, -, hf⟩ := h p rfl
    rw [strayLines]
    dsimp only
    rw [hl, List.tail_cons, List.countP_eq_zero]
    intro l hm
    simpa using hf l hm

theorem countP_linesOf_drawn {e : Element} (hp : e.isPlot = false) :
    (linesOf "  " e).countP (¬IsFrame ·) = 1 + strayLines e := by
  have hl := Reading.not_isFrame_code hp Reading.isBlank_indent.1
  have hs : strayLines e = 0 := by
    apply strayLines_eq_zero
    intro p hf
    rw [Element.isPlot, Element.kind, hf] at hp
    contradiction
  rw [linesOf_drawn hp, hs, List.countP_cons_of_pos (by simpa using hl), List.countP_nil]

theorem exists_lines_plotRest (p : Plot) :
    ∃ first others, Text.lines (Reading.plotRest p) = first :: others := by
  have hne : Reading.plotRest p ≠ [] := by simp [Reading.plotRest]
  exact List.exists_cons_of_ne_nil (Text.lines_ne_nil hne)

theorem countP_linesOf_plotted {e : Element} (hp : e.isPlot = true) :
    (linesOf "    " e).countP (¬IsFrame ·) = 1 + strayLines e := by
  obtain ⟨p, style, rfl⟩ := Element.exists_eq_plot hp
  obtain ⟨first, others, hl⟩ := exists_lines_plotRest p
  have hn := Reading.not_isFrame_plot style Reading.isBlank_indent.2 first
  rw [linesOf, Reading.lines_code_plot style "    " (by decide) hl,
    List.countP_cons_of_pos (by simpa using hn), strayLines]
  dsimp only
  rw [hl, List.tail_cons, Nat.add_comm]

theorem countP_flatMap_linesOf (es : List Element) (indent : String)
    (h : ∀ e ∈ es, (linesOf indent e).countP (¬IsFrame ·) = 1 + strayLines e) :
    (es.flatMap (linesOf indent)).countP (¬IsFrame ·) = es.length + (es.map strayLines).sum := by
  induction es with
  | nil => rfl
  | cons e es ih =>
    rw [List.flatMap_cons, List.countP_append, h e (List.mem_cons_self ..),
      ih fun d hd => h d (List.mem_cons_of_mem _ hd), List.length_cons, List.map_cons, List.sum_cons]
    omega

/-- The lines of a scene's code that frame nothing are one for each element, and the stray ones. -/
theorem recognized_add_skipped_code (hs : s.IsFinite) :
    (Document.ofText s.code).recognized + (Document.ofText s.code).skipped =
      s.size + ((s.drawn ++ s.plotted).map strayLines).sum := by
  obtain ⟨before, between, after, hb, hm, ha, hl⟩ := exists_lines_code_eq hs
  have hzero (ls : List (List Char)) (h : ∀ l ∈ ls, IsFrame l) : ls.countP (¬IsFrame ·) = 0 :=
    List.countP_eq_zero.2 fun l hl => by simpa using h l hl
  have hd := countP_flatMap_linesOf s.drawn "  " fun e he =>
    countP_linesOf_drawn (isFinite_of_mem_drawn hs e he).2
  have hp := countP_flatMap_linesOf s.plotted "    " fun e he =>
    countP_linesOf_plotted (isFinite_of_mem_plotted hs e he).2
  rw [Document.recognized_add_skipped, hl]
  simp only [List.countP_append, hzero _ hb, hzero _ hm, hzero _ ha, hd, hp, List.map_append,
    List.sum_append, ← length_drawn_add_length_plotted s]
  omega

theorem diagnostic?_eq_none {e : Element} {l : List Char} {axis : Axis} {offset : Nat}
    (h : ofLine axis offset l = .element e) : (ofLine axis offset l).diagnostic? = none := by
  rw [h]
  rfl

variable {p : Plot} {style : Style}

/-- A plot whose first line does not end it is not read, whatever axis is open. -/
theorem endsPlot_of_skipped_eq_zero (hs : s.IsFinite) (h : (Document.ofText s.code).skipped = 0)
    (hp : ⟨.plot p, style⟩ ∈ s.elements) {first : List Char} {others : List (List Char)}
    (hl : Text.lines (Reading.plotRest p) = first :: others) : Command.EndsPlot first := by
  by_contra hn
  have hm : "    ".toList ++ (Command.plotFront style ++ first) ∈ Text.lines s.code.toList := by
    obtain ⟨before, between, after, -, -, -, hc⟩ := exists_lines_code_eq hs
    rw [hc]
    refine List.mem_append_right _ (List.mem_append_right _ (List.mem_append_right _
      (List.mem_append_left _ (List.mem_flatMap.2 ⟨_, List.mem_filter.2 ⟨hp, rfl⟩, ?_⟩))))
    rw [linesOf, Reading.lines_code_plot style "    " (by decide) hl]
    exact List.mem_cons_self ..
  obtain ⟨a, o, hr⟩ := Reading.exists_mem_ofLines hm {} 0
  obtain ⟨d, hd⟩ :=
    Reading.exists_ofLine_plot_eq_skipped (hs _ hp).style Reading.isBlank_indent.2 hn a o
  rw [Document.skipped_eq, List.length_eq_zero_iff, Document.diagnostics,
    List.filterMap_eq_nil_iff] at h
  have hnone := h _ hr
  rw [hd] at hnone
  exact Option.some_ne_none d hnone

theorem skipped_eq_zero (hs : s.IsFinite)
    (h : ∀ e ∈ s.elements, ∀ p, e.figure = .plot p → p.IsContained) :
    (Document.ofText s.code).skipped = 0 := by
  obtain ⟨before, between, after, hb, hm, ha, hc⟩ := exists_lines_code_eq hs
  rw [Document.skipped_eq, List.length_eq_zero_iff, Document.diagnostics,
    List.filterMap_eq_nil_iff]
  intro r hr
  obtain ⟨l, hl, a, o, rfl⟩ := Reading.exists_of_mem_ofLines hr
  rw [hc] at hl
  simp only [List.mem_append, List.mem_flatMap] at hl
  rcases hl with hl | ⟨e, he, hl⟩ | hl | ⟨e, he, hl⟩ | hl
  · exact (Reading.unrecorded_of_isFrame (hb l hl) a o).2
  · obtain ⟨hf, hp⟩ := isFinite_of_mem_drawn hs e he
    rw [linesOf_drawn hp, List.mem_singleton] at hl
    rw [hl]
    exact diagnostic?_eq_none (Reading.ofLine_code hf hp Reading.isBlank_indent.1 a o)
  · exact (Reading.unrecorded_of_isFrame (hm l hl) a o).2
  · obtain ⟨hf, hp⟩ := isFinite_of_mem_plotted hs e he
    obtain ⟨p, style, rfl⟩ := Element.exists_eq_plot hp
    obtain ⟨first, others, hlp, ⟨inner, gap, blanks, hi, hg, hbl, hstrip⟩, hframes⟩ :=
      h _ (List.mem_filter.1 he).1 p rfl
    rw [linesOf, Reading.lines_code_plot style "    " (by decide) hlp, List.mem_cons] at hl
    rcases hl with hl | hl
    · rw [hl]
      exact diagnostic?_eq_none
        (Reading.ofLine_plot hf.style Reading.isBlank_indent.2 hi hg hbl hstrip a o)
    · exact (Reading.unrecorded_of_isFrame (hframes l hl) a o).2
  · exact (Reading.unrecorded_of_isFrame (ha l hl) a o).2

/-- The code of a scene is read as one element for each of its own, and nothing else, exactly if
every expression is contained. Labels never matter. -/
theorem contained_iff (s : Scene) (hs : s.IsFinite) :
    ((Document.ofText s.code).recognized = s.size ∧ (Document.ofText s.code).skipped = 0) ↔
      ∀ e ∈ s.elements, ∀ p, e.figure = .plot p → p.IsContained := by
  have hcount := recognized_add_skipped_code hs
  constructor
  · rintro ⟨hr, hk⟩ e he p hp
    obtain ⟨figure, style⟩ := e
    cases hp
    obtain ⟨first, others, hl⟩ := exists_lines_plotRest p
    refine ⟨first, others, hl, endsPlot_of_skipped_eq_zero hs hk he hl, ?_⟩
    -- No line is skipped, so the elements are all the lines that frame nothing: none is stray.
    have hsum : ((s.drawn ++ s.plotted).map strayLines).sum = 0 := by omega
    have hmem : strayLines ⟨.plot p, style⟩ ∈ (s.drawn ++ s.plotted).map strayLines :=
      List.mem_map_of_mem (List.mem_append_right _ (List.mem_filter.2 ⟨he, rfl⟩))
    have hstray := List.sum_eq_zero_iff.1 hsum _ hmem
    rw [strayLines] at hstray
    dsimp only at hstray
    rw [hl, List.tail_cons, List.countP_eq_zero] at hstray
    intro l hm
    simpa using hstray l hm
  · intro h
    have hk := skipped_eq_zero hs h
    have hsum : ((s.drawn ++ s.plotted).map strayLines).sum = 0 := by
      rw [List.sum_eq_zero_iff]
      intro n hn
      obtain ⟨e, he, rfl⟩ := List.mem_map.1 hn
      have hm : e ∈ s.elements := (List.mem_append.1 he).elim (fun he => (List.mem_filter.1 he).1)
        fun he => (List.mem_filter.1 he).1
      exact strayLines_eq_zero (h e hm)
    exact ⟨by omega, hk⟩

/-- A label and two expressions that do not get out of their braces, though one of them has a brace
too many: what follows it is a comment. -/
def poked : Scene := .ofElements [
  { figure := .label { position := ⟨0, 0⟩, text := "\x7d; % \n\\" } },
  { figure := .plot { expression := "\\frac\x7bx\x7d\x7b2\x7d" } },
  { figure := .plot { expression := "x\x7d;\n%" } }]

theorem contained_poked : poked.IsFinite ∧
    (∀ e ∈ poked.elements, ∀ p, e.figure = .plot p → p.IsContained) ∧
    (Document.ofText poked.code).recognized = 3 ∧ (Document.ofText poked.code).skipped = 0 := by
  have hs : poked.IsFinite := by decide +kernel
  have hc : ∀ e ∈ poked.elements, ∀ p, e.figure = .plot p → p.IsContained := by
    intro e he p hp
    simp only [poked, elements_ofElements, List.mem_cons, List.not_mem_nil, or_false] at he
    rcases he with rfl | rfl | rfl
    · cases hp
    · cases hp
      exact (Plot.isContained_iff (by decide) (by decide)).2 (by decide)
    · cases hp
      refine ⟨['x', '}', ';', '\n'], [['%', '}', ';', '\n']], rfl, ?_, by decide⟩
      exact ⟨['x'], [], ['\n'], by decide, List.forall_mem_nil _, List.forall_mem_singleton.2 rfl, rfl⟩
  obtain ⟨hr, hk⟩ := (contained_iff poked hs).2 hc
  exact ⟨hs, hc, hr, hk⟩

/-- A plot whose only character is a closing brace. -/
def stray : Scene := .ofElements [{ figure := .plot { expression := "\x7d" } }]

/-- The code of this scene does not give its only element back. -/
theorem not_contained_stray : stray.IsFinite ∧ stray.size = 1 ∧
    (Document.ofText stray.code).recognized = 0 ∧ (Document.ofText stray.code).skipped = 1 :=
  ⟨by decide +kernel, rfl, by decide +kernel, by decide +kernel⟩

end Scene

end Sketch
