import Sketch.Proofs.Code.Document

/-!
The lines of the code of a scene. All of them are one command each but for those of a plot, whose
expression may hold anything.
-/

namespace Sketch

/-! ### Elements in the order of their lines -/

namespace Scene

variable {s t : Scene}

def drawn (s : Scene) : List Element := s.elements.filter (!·.isPlot)

def plotted (s : Scene) : List Element := s.elements.filter (·.isPlot)

theorem map_others (s : Scene) : s.others.map (·.element) = s.drawn := by
  rw [others, drawn, elements, List.filter_map]
  rfl

theorem map_plots (s : Scene) : s.plots.map (·.element) = s.plotted := by
  rw [plots, plotted, elements, List.filter_map]
  rfl

theorem isEquivalent_iff :
    s.isEquivalent t = true ↔ (s.drawn == t.drawn) = true ∧ (s.plotted == t.plotted) = true := by
  rw [isEquivalent, Bool.and_eq_true, map_others, map_others, map_plots, map_plots]

theorem axis?_eq (s : Scene) : s.axis? = (s.plotted.head?.bind Element.plot?).map (·.axis) := by
  rw [axis?, ← map_plots, List.head?_map]
  cases s.plots.head? <;> rfl

theorem length_drawn_add_length_plotted (s : Scene) : s.drawn.length + s.plotted.length = s.size := by
  have h := List.length_eq_length_filter_add (fun e : Element => e.isPlot) (l := s.elements)
  rw [elements, List.length_map] at h
  rw [size, h, Nat.add_comm]
  rfl

/-- The lines of the axis block of plots. -/
def blockLines (axis : Axis) (plots : List Element) : List String :=
  ["  " ++ Command.axisBegin ++ axis.code] ++ plots.map (fun e => "    " ++ e.code) ++
    ["  " ++ Command.axisEnd]

theorem codeLines_eq (s : Scene) : s.codeLines = [Command.pictureBegin] ++
    s.drawn.map (fun e => "  " ++ e.code) ++
      (s.axis?.map fun axis => blockLines axis s.plotted).getD [] := by
  rw [codeLines, plotLines, ← map_others, ← map_plots, List.map_map]
  cases s.axis? with
  | none => rfl
  | some axis =>
    simp only [Option.map_some, Option.getD_some, blockLines, List.map_map]
    rfl

/-- A scene's code is put together from that of its elements and that of its axis. -/
theorem code_congr (hd : s.drawn.map Element.code = t.drawn.map Element.code)
    (hp : s.plotted.map Element.code = t.plotted.map Element.code)
    (ha : s.axis?.map Axis.code = t.axis?.map Axis.code) : s.code = t.code := by
  have hlines (indent : String) {es fs : List Element} (h : es.map Element.code = fs.map Element.code) :
      es.map (fun e => indent ++ e.code) = fs.map (fun e => indent ++ e.code) := by
    have := congrArg (List.map (indent ++ ·)) h
    rwa [List.map_map, List.map_map] at this
  have hblock (u : Scene) : (u.axis?.map fun axis => blockLines axis u.plotted) =
      (u.axis?.map Axis.code).map fun options => ["  " ++ Command.axisBegin ++ options] ++
        u.plotted.map (fun e => "    " ++ e.code) ++ ["  " ++ Command.axisEnd] := by
    rw [Option.map_map]
    rfl
  rw [code, code, codeLines_eq, codeLines_eq, hblock, hblock, hlines _ hd, hlines _ hp, ha]

theorem toList_code (s : Scene) : s.code.toList =
    s.codeLines.flatMap (fun l => l.toList ++ ['\n']) ++ Command.pictureEnd.toList := by
  rw [code, String.toList_append, String.toList_join, List.flatMap_map]
  simp only [String.toList_append]
  rfl

/-- A scene's code, line by line; a command may be on several lines. -/
theorem lines_code (s : Scene) : Text.lines s.code.toList =
    s.codeLines.flatMap (fun l => Text.lines (l.toList ++ ['\n'])) ++
      [Command.pictureEnd.toList] := by
  rw [toList_code, (Text.EndsLine.flatMap (fun _ => .concat _) _).lines_append,
    Text.EndsLine.lines_flatMap fun _ => .concat _]
  rfl

theorem lines_code_element {e : Element} (hp : e.isPlot = false) (indent : String)
    (hi : '\n' ∉ indent.toList) : Text.lines ((indent ++ e.code).toList ++ ['\n']) =
      [indent.toList ++ (e.code.toList ++ ['\n'])] := by
  rw [String.toList_append, Text.lines_single, List.append_assoc]
  rw [List.mem_append, not_or]
  exact ⟨hi, (Element.isInline_code hp).break_not_mem⟩

end Scene

/-! ### Lines around the elements -/

namespace Reading

variable {a : Axis} {e : Element} {indent : List Char}

theorem ofLine_pictureBegin (axis : Axis) (offset : Nat) :
    ofLine axis offset (Command.pictureBegin.toList ++ ['\n']) = .nothing := rfl

theorem ofLine_pictureEnd (axis : Axis) (offset : Nat) :
    ofLine axis offset Command.pictureEnd.toList = .nothing := rfl

theorem ofLine_axisEnd (axis : Axis) (offset : Nat) :
    ofLine axis offset (("  " ++ Command.axisEnd).toList ++ ['\n']) = .axis {} := rfl

theorem lines_axisBegin (h : a.IsFinite) :
    Text.lines (("  " ++ Command.axisBegin ++ a.code).toList ++ ['\n']) =
      [("  " ++ Command.axisBegin ++ a.code).toList ++ ['\n']] := by
  apply Text.lines_single
  rw [String.append_assoc, String.toList_append, List.mem_append, not_or]
  exact ⟨by decide, (a.isInline_code h).break_not_mem⟩

theorem significant_command {front : List Char} {c d : Char} (hi : Text.IsBlank indent)
    (hf : Text.IsInline front) (hh : front.head? = some c) (hc : Text.isBlank c = false)
    (hl : front.getLast? = some d) (hd : Text.isBlank d = false) :
    significant (indent ++ (front ++ ['\n'])) = front := by
  rw [significant_append hi hf hh hc hl hd]
  exact List.append_nil front

theorem isBlank_indent : Text.IsBlank "  ".toList ∧ Text.IsBlank "    ".toList := by
  unfold Text.IsBlank
  decide

theorem ofLine_axisBegin (h : a.IsFinite) (axis : Axis) (offset : Nat) :
    ofLine axis offset (("  " ++ Command.axisBegin ++ a.code).toList ++ ['\n']) =
      .axis a.unsigned := by
  have hs : significant ("  ".toList ++ ((Command.axisBegin ++ a.code).toList ++ ['\n'])) =
      (Command.axisBegin ++ a.code).toList := by
    apply significant_command isBlank_indent.1 (a.isInline_code h) (c := '\\') (d := ']')
    · rw [String.toList_append]
      rfl
    · decide
    · rw [a.code_eq]
      simp [List.getLast?_cons]
    · decide
  have hl : ("  " ++ Command.axisBegin ++ a.code).toList ++ ['\n'] =
      "  ".toList ++ ((Command.axisBegin ++ a.code).toList ++ ['\n']) := by
    simp only [String.toList_append, List.append_assoc]
  have hb : Command.axisBegin.toList = '\\' :: 'b' :: "egin\x7baxis\x7d".toList := rfl
  have hpe : Command.pictureEnd.toList = '\\' :: 'e' :: "nd\x7btikzpicture\x7d".toList := rfl
  have hae : Command.axisEnd.toList = '\\' :: 'e' :: "nd\x7baxis\x7d".toList := rfl
  have hpb (cs : List Char) :
      Command.pictureBegin.toList.isPrefixOf (Command.axisBegin.toList ++ cs) = false := rfl
  have hnot : ¬((Command.axisBegin ++ a.code).toList.isEmpty ∨
      Command.pictureBegin.toList.isPrefixOf (Command.axisBegin ++ a.code).toList ∨
      (Command.axisBegin ++ a.code).toList = Command.pictureEnd.toList) := by
    rw [String.toList_append, hpb, hb, hpe]
    simp
  have hne : (Command.axisBegin ++ a.code).toList ≠ Command.axisEnd.toList := by
    rw [String.toList_append, hb, hae]
    simp
  rw [hl]
  unfold ofLine
  dsimp only
  rw [hs, if_neg hnot, if_neg hne, Command.axis?_code h]

theorem significant_code (hp : e.isPlot = false) (hi : Text.IsBlank indent) :
    significant (indent ++ (e.code.toList ++ ['\n'])) = e.code.toList := by
  obtain ⟨c, cs, hc, -, -⟩ := Element.exists_code_eq hp
  refine significant_command hi (Element.isInline_code hp) (c := '\\') (d := ';') ?_ (by decide)
    e.getLast?_code (by decide)
  rw [hc]
  rfl

theorem not_isFrame_code (hp : e.isPlot = false) (hi : Text.IsBlank indent) :
    ¬IsFrame (indent ++ (e.code.toList ++ ['\n'])) := by
  obtain ⟨c, cs, hc, hb, he⟩ := Element.exists_code_eq hp
  exact not_isFrame_of_head ((significant_code hp hi).trans hc) hb he

theorem ofLine_code (he : e.IsFinite) (hp : e.isPlot = false) (hi : Text.IsBlank indent)
    (axis : Axis) (offset : Nat) :
    ofLine axis offset (indent ++ (e.code.toList ++ ['\n'])) = .element (e.reread axis) := by
  have hread : Command.ofLine axis e.code.toList = .ok (e.reread axis) := by
    obtain ⟨figure, style⟩ := e
    obtain ⟨hf, hs⟩ := he
    cases figure with
    | shape t => exact Command.ofLine_shape hf hs axis
    | label l => exact Command.ofLine_label hf hs axis
    | plot p => contradiction
  rw [ofLine_of_not_isFrame (not_isFrame_code hp hi), significant_code hp hi, hread]

end Reading

/-! ### The lines of plots -/

/-- What may stand behind the opening brace of a plot on its first line: an expression in which every
brace has its partner, the closing brace, and the end of the command. -/
def Command.EndsPlot (first : List Char) : Prop :=
  ∃ inner gap blanks, Braces.Balanced 0 inner ∧ Text.IsSpacing gap ∧ Text.IsBlank blanks ∧
    Reading.stripComment false first = inner ++ '}' :: (gap ++ ';' :: blanks)

namespace Reading

open Command (plotFront EndsPlot IsClosing)

variable {s : Style} {indent first : List Char}

/-- What follows the opening brace of a plot in code. -/
def plotRest (p : Plot) : List Char := p.expression.toList ++ ['}', ';', '\n']

theorem code_plot_append (s : Style) (p : Plot) (indent : String) :
    (indent ++ Element.code ⟨.plot p, s⟩).toList ++ ['\n'] =
      indent.toList ++ (plotFront s ++ plotRest p) := by
  unfold Element.code plotFront plotRest
  simp

theorem percent_not_mem_plotRest {p : Plot} (h : '%' ∉ Braces.unescaped p.expression.toList) :
    '%' ∉ Braces.unescaped (plotRest p) := by
  intro hm
  rcases Braces.mem_unescaped_append hm with hm | hm
  · exact h hm
  · revert hm
    decide

theorem lines_plotRest {p : Plot} (h : '\n' ∉ p.expression.toList) :
    Text.lines (plotRest p) = [plotRest p] := by
  have hr : plotRest p = p.expression.toList ++ ['}', ';'] ++ ['\n'] := by simp [plotRest]
  rw [hr, Text.lines_single]
  simpa using h

/-- A plot on a single line ends there exactly if its expression is balanced. -/
theorem endsPlot_plotRest_iff {p : Plot} (h : '%' ∉ Braces.unescaped p.expression.toList) :
    EndsPlot (plotRest p) ↔ Braces.Balanced 0 p.expression.toList := by
  have hbreak : Text.IsBlank ['\n'] := List.forall_mem_singleton.2 rfl
  rw [EndsPlot, stripComment_eq_self (percent_not_mem_plotRest h)]
  constructor
  · rintro ⟨inner, gap, blanks, hi, hg, hb, he⟩
    -- The two texts are cut back from their ends: blanks, the semicolon, the gap, the brace.
    have hsemi : p.expression.toList ++ ['}'] ++ [';'] = inner ++ ['}'] ++ gap ++ [';'] := by
      have ht := congrArg Text.trimEnd he
      rw [plotRest] at ht
      have hl : p.expression.toList ++ ['}', ';', '\n'] =
          p.expression.toList ++ ['}'] ++ [';'] ++ ['\n'] := by simp
      have hr : inner ++ '}' :: (gap ++ ';' :: blanks) = inner ++ ['}'] ++ gap ++ [';'] ++ blanks := by
        simp
      rwa [hl, hr, Text.trimEnd_append _ hbreak, Text.trimEnd_append _ hb, Text.trimEnd_concat _ rfl,
        Text.trimEnd_concat _ rfl] at ht
    have hbrace : p.expression.toList ++ ['}'] = inner ++ ['}'] := by
      have ht := congrArg Text.trimEnd (List.append_cancel_right hsemi)
      rwa [Text.trimEnd_append _ fun c hc => Text.isBlank_of_isSpacing (hg c hc),
        Text.trimEnd_concat _ rfl, Text.trimEnd_concat _ rfl] at ht
    rwa [List.append_cancel_right hbrace]
  · intro hb
    exact ⟨_, [], ['\n'], hb, List.forall_mem_nil _, hbreak, rfl⟩

/-- Only the first line of a plot has the front of its command. -/
theorem lines_code_plot (s : Style) {p : Plot} {others : List (List Char)} (indent : String)
    (hi : '\n' ∉ indent.toList) (hl : Text.lines (plotRest p) = first :: others) :
    Text.lines ((indent ++ Element.code ⟨.plot p, s⟩).toList ++ ['\n']) =
      (indent.toList ++ (plotFront s ++ first)) :: others := by
  rw [code_plot_append]
  apply Text.lines_append hi
  exact Text.lines_append (Command.isInline_plotFront s).break_not_mem hl

theorem exists_plotFront_eq (s : Style) : ∃ cs, plotFront s = '\\' :: 'a' :: cs := ⟨_, rfl⟩

theorem getLast?_plotFront (s : Style) : (plotFront s).getLast? = some '{' := by
  unfold plotFront
  simp [List.getLast?_cons]

theorem significant_plot (s : Style) (hi : Text.IsBlank indent) (first : List Char) :
    significant (indent ++ (plotFront s ++ first)) =
      plotFront s ++ Text.trimEnd (stripComment false first) := by
  have hc : Text.isBlank '\\' = false := rfl
  exact significant_append hi (Command.isInline_plotFront s) rfl hc (getLast?_plotFront s) rfl first

theorem not_isFrame_plot (s : Style) (hi : Text.IsBlank indent) (first : List Char) :
    ¬IsFrame (indent ++ (plotFront s ++ first)) := by
  obtain ⟨cs, hc⟩ := exists_plotFront_eq s
  have hsig := significant_plot s hi first
  rw [hc] at hsig ⊢
  exact not_isFrame_of_head hsig (by decide) (by decide)

/-- The first line of a plot is read under any axis, or under none. -/
theorem ofLine_plot (hs : s.IsFinite) (hi : Text.IsBlank indent) {inner gap blanks : List Char}
    (hb : Braces.Balanced 0 inner) (hg : Text.IsSpacing gap) (hbl : Text.IsBlank blanks)
    (hf : stripComment false first = inner ++ '}' :: (gap ++ ';' :: blanks)) (axis : Axis)
    (offset : Nat) : ofLine axis offset (indent ++ (plotFront s ++ first)) =
      .element ⟨.plot ⟨.ofList (Text.trim inner), axis⟩, s⟩ := by
  have ht : Text.trimEnd (stripComment false first) = inner ++ '}' :: (gap ++ ';' :: []) := by
    have hsplit : inner ++ '}' :: (gap ++ ';' :: blanks) =
        (inner ++ '}' :: gap ++ [';']) ++ blanks := by
      simp
    rw [hf, hsplit, Text.trimEnd_append _ hbl, Text.trimEnd_concat _ rfl]
    simp
  rw [ofLine_of_not_isFrame (not_isFrame_plot s hi first), significant_plot s hi, ht,
    Command.ofLine_plot hs axis ⟨hb, hg, List.forall_mem_nil _⟩]

theorem ofLine_plotRest (hs : s.IsFinite) (hi : Text.IsBlank indent) {p : Plot}
    (hp : '%' ∉ Braces.unescaped p.expression.toList) (hb : Braces.Balanced 0 p.expression.toList)
    (axis : Axis) (offset : Nat) : ofLine axis offset (indent ++ (plotFront s ++ plotRest p)) =
      .element ⟨.plot ⟨.ofList (Text.trim p.expression.toList), axis⟩, s⟩ :=
  ofLine_plot hs hi hb (List.forall_mem_nil _) (List.forall_mem_singleton.2 rfl)
    (stripComment_eq_self (percent_not_mem_plotRest hp)) axis offset

theorem exists_ofLine_plot_eq_skipped (hs : s.IsFinite) (hi : Text.IsBlank indent)
    (hf : ¬EndsPlot first) (axis : Axis) (offset : Nat) :
    ∃ d, ofLine axis offset (indent ++ (plotFront s ++ first)) = .skipped d := by
  have hc : ∀ inner gap after, IsClosing inner gap after →
      Text.trimEnd (stripComment false first) ≠ inner ++ '}' :: (gap ++ ';' :: after) := by
    intro inner gap after hc he
    obtain ⟨bs, hb, hbs⟩ := Text.exists_trimEnd_eq (stripComment false first)
    refine hf ⟨inner, gap, after ++ bs, hc.balanced, hc.gap, ?_, ?_⟩
    · intro c hm
      rcases List.mem_append.1 hm with hm | hm
      · exact Text.isBlank_of_isSpacing (hc.after c hm)
      · exact hb c hm
    · rw [hbs, he]
      simp
  obtain ⟨m, hm⟩ := Command.exists_ofLine_plot_eq hs axis hc
  rw [ofLine_of_not_isFrame (not_isFrame_plot s hi first), significant_plot s hi, hm]
  exact ⟨_, rfl⟩

end Reading

end Sketch
