import Sketch.Proofs.Code.Reader

/-!
The command of an element is read as that element. Every command is refused by the readers that are
tried before its own: the shapes differ in their keyword, and the others in the name of the command.
-/

namespace Sketch.Command

variable {α : Type} {r : Reader α} {rs : List (Reader α)} {text rest : List Char} {a : α}

theorem Reads.firstOf_eq (h : Reads r text a []) (rs : List (Reader α)) :
    firstOf text (r :: rs) = .ok a := by
  rw [firstOf, h.readLine_eq]

theorem Rejects.firstOf_eq (h : Rejects r text) (hs : firstOf text rs = .ok a) :
    firstOf text (r :: rs) = .ok a := by
  obtain ⟨m, hm⟩ := h.exists_readLine_eq
  rw [firstOf, hm, hs]
  rfl

/-! ### Shapes -/

theorem reads_semicolon : Reads finish ";".toList () [] := by
  have hn : Text.IsSpacing [] := by
    intro c hc
    contradiction
  exact reads_finish hn hn

/-- Options after which a command reads on at its first point, in the style that they say. -/
def ReadsFront (options : List Char) (s : Style) : Prop :=
  ∀ (p : Point) (rest : List Char), ∃ o : Options, o.Says .shape s ∧
    Reads (head "\\draw") ("\\draw".toList ++ (options ++ (" ".toList ++ (p.code.toList ++ rest)))) o
      (p.code.toList ++ rest)

theorem code_append (p : Point) (rest : List Char) : ∃ cs, p.code.toList ++ rest = '(' :: cs :=
  ⟨(Number.code p.x ++ "," ++ Number.code p.y ++ ")").toList ++ rest, by simp [Point.code]⟩

theorem dropWhile_point (p : Point) (rest : List Char) :
    (p.code.toList ++ rest).dropWhile Text.isSpacing = p.code.toList ++ rest := by
  obtain ⟨cs, hc⟩ := code_append p rest
  rw [hc]
  rfl

theorem dropWhile_space (cs : List Char) :
    (" ".toList ++ cs).dropWhile Text.isSpacing = cs.dropWhile Text.isSpacing := rfl

theorem readsFront_code {s : Style} (hs : s.IsFinite) : ReadsFront (s.code "draw").toList s := by
  intro p rest
  obtain ⟨cs, hc⟩ := code_append p rest
  rw [hc]
  exact exists_reads_head hs .shape (by decide) (by decide) "\\draw" cs

theorem exists_readsFront_grid : ∃ s, ReadsFront Shape.gridOptions.toList s := by
  refine ⟨_, fun p rest => ⟨.ofText "step=1cm, gray!30, very thin, dashed".toList,
    ⟨rfl, fun _ => rfl⟩, ?_⟩⟩
  obtain ⟨cs, hc⟩ := code_append p rest
  rw [hc]
  let raw := "step=1cm, gray!30, very thin, dashed".toList
  have hb : Braces.splitBefore? ']' 0 (raw ++ ']' :: ' ' :: '(' :: cs) =
      some (raw, ']' :: ' ' :: '(' :: cs) :=
    Braces.splitBefore?_append_of_forall (by decide) (by decide) (' ' :: '(' :: cs)
  refine (reads_literal "\\draw" _).bind ?_
  refine (reads_spacing _).bind ?_
  refine (reads_options hb).bind ?_
  exact (reads_spacing _).bind (reads_pure _ _)

section Drawing

variable {f : Options → Point → Reader Element} {options after : List Char} {word : String}
  {s : Style} {p : Point} {e : Element}

/-- A shape is read by the keyword after its first point. -/
theorem reads_drawing (hf : ReadsFront options s) (hp : p.IsFinite)
    (hk : rest.dropWhile Text.isSpacing = word.toList ++ after)
    (h : ∀ o : Options, o.Says .shape s →
      Reads (f o p.unsigned) (after.dropWhile Text.isSpacing) e []) :
    Reads (do
        let o ← head "\\draw"
        let p ← point
        keyword word
        f o p)
      ("\\draw".toList ++ (options ++ (" ".toList ++ (p.code.toList ++ rest)))) e [] := by
  obtain ⟨o, ho, hr⟩ := hf p rest
  refine hr.bind ?_
  refine (reads_point hp rest).bind ?_
  exact (reads_keyword hk).bind (h o ho)

theorem rejects_drawing (hf : ReadsFront options s) (hp : p.IsFinite)
    (hk : Text.after? word.toList (rest.dropWhile Text.isSpacing) = none) :
    Rejects (do
        let o ← head "\\draw"
        let p ← point
        keyword word
        f o p)
      ("\\draw".toList ++ (options ++ (" ".toList ++ (p.code.toList ++ rest)))) := by
  obtain ⟨o, -, hr⟩ := hf p rest
  refine hr.bind_rejects ?_
  refine (reads_point hp rest).bind_rejects ?_
  exact (rejects_keyword hk).bind

end Drawing

variable {s : Style} {p q : Point} {x y : Float}

theorem reads_circle (hs : s.IsFinite) (hp : p.IsFinite) (hx : x.isFinite = true) :
    Reads circle (Shape.code s (.circle p x)).toList ⟨.shape (Shape.circle p x).unsigned, s⟩ [] := by
  simp only [Shape.code, String.toList_append, List.append_assoc]
  have hk : (" circle (".toList ++ ((Number.code x).toList ++ "cm);".toList)).dropWhile Text.isSpacing =
      "circle".toList ++ (" (".toList ++ ((Number.code x).toList ++ "cm);".toList)) := rfl
  refine reads_drawing (readsFront_code hs) hp hk fun o ho => ?_
  refine (reads_literal "(" ((Number.code x).toList ++ "cm);".toList)).bind ?_
  refine (reads_spacing _).bind ?_
  rw [dropWhile_code hx]
  refine (reads_number hx (by simp [isNumberChar])).bind ?_
  refine (reads_spacing _).bind ?_
  refine (reads_skips "cm" ");".toList).bind ?_
  refine (reads_spacing _).bind ?_
  refine (reads_literal ")" ";".toList).bind ?_
  refine reads_semicolon.bind ?_
  rw [← ho.styleFor]
  exact reads_pure _ _

theorem reads_rectangle (hs : s.IsFinite) (hp : p.IsFinite) (hq : Point.IsFinite ⟨x, y⟩) :
    Reads rectangle (Shape.code s (.rectangle p x y)).toList
      ⟨.shape (Shape.rectangle p x y).unsigned, s⟩ [] := by
  simp only [Shape.code, String.toList_append, List.append_assoc]
  have hk : (" rectangle ++".toList ++ ((Point.code ⟨x, y⟩).toList ++ ";".toList)).dropWhile
      Text.isSpacing = "rectangle".toList ++ (" ++".toList ++ ((Point.code ⟨x, y⟩).toList ++
        ";".toList)) := rfl
  refine reads_drawing (readsFront_code hs) hp hk fun o ho => ?_
  refine (reads_skips "++" ((Point.code ⟨x, y⟩).toList ++ ";".toList)).bind ?_
  rw [if_pos rfl]
  refine (reads_spacing _).bind ?_
  rw [dropWhile_point]
  refine (reads_point hq ";".toList).bind ?_
  refine reads_semicolon.bind ?_
  rw [← ho.styleFor]
  exact reads_pure _ _

theorem reads_line (hs : s.IsFinite) (hp : p.IsFinite) (hq : q.IsFinite) :
    Reads line (Shape.code s (.line p q)).toList ⟨.shape (Shape.line p q).unsigned, s⟩ [] := by
  simp only [Shape.code, String.toList_append, List.append_assoc]
  have hk : (" -- ".toList ++ (q.code.toList ++ ";".toList)).dropWhile Text.isSpacing =
      "--".toList ++ (" ".toList ++ (q.code.toList ++ ";".toList)) := rfl
  refine reads_drawing (readsFront_code hs) hp hk fun o ho => ?_
  rw [dropWhile_space, dropWhile_point]
  refine (reads_point hq ";".toList).bind ?_
  refine reads_semicolon.bind ?_
  rw [← ho.styleFor]
  exact reads_pure _ _

theorem reads_grid (hp : p.IsFinite) (hq : q.IsFinite) :
    Reads grid (Shape.code s (.grid p q)).toList ⟨.shape (Shape.grid p q).unsigned, {}⟩ [] := by
  simp only [Shape.code, String.toList_append, List.append_assoc]
  have hk : (" grid ".toList ++ (q.code.toList ++ ";".toList)).dropWhile Text.isSpacing =
      "grid".toList ++ (" ".toList ++ (q.code.toList ++ ";".toList)) := rfl
  obtain ⟨t, hf⟩ := exists_readsFront_grid
  refine reads_drawing hf hp hk fun o _ => ?_
  rw [dropWhile_space, dropWhile_point]
  refine (reads_point hq ";".toList).bind ?_
  exact reads_semicolon.bind (reads_pure _ _)

/-! ### Labels and plots -/

theorem reads_node {l : Label} (hs : s.IsFinite) (hp : l.position.IsFinite) :
    Reads node (Element.code ⟨.label l, s⟩).toList ⟨.label l.reread, s⟩ [] := by
  simp only [Element.code, String.toList_append, List.append_assoc]
  have hb : Braces.Balanced 0 l.content.toList := by
    rw [Label.content, String.toList_ofList]
    exact (Braces.safe_escape _).balanced
  have hc : Text.isSpacing 'a' = false := by decide
  obtain ⟨o, ho, hr⟩ := exists_reads_head hs .text hc (by decide) "\\node"
    ("t ".toList ++ (l.position.code.toList ++ (" \x7b".toList ++ (l.content.toList ++ "\x7d;".toList))))
  have hk : ("at ".toList ++ (l.position.code.toList ++ (" \x7b".toList ++ (l.content.toList ++
      "\x7d;".toList)))).dropWhile Text.isSpacing = "at".toList ++ (" ".toList ++
        (l.position.code.toList ++ (" \x7b".toList ++ (l.content.toList ++ "\x7d;".toList)))) := rfl
  refine hr.bind ?_
  refine (reads_keyword hk).bind ?_
  rw [dropWhile_space, dropWhile_point]
  refine (reads_point hp _).bind ?_
  refine (reads_spacing _).bind ?_
  refine (reads_braced hb ";".toList).bind ?_
  refine reads_semicolon.bind ?_
  have hl : l.reread = ⟨l.position.unsigned, .ofList l.content.toList⟩ := by
    rw [String.ofList_toList, Label.reread]
  rw [hl, ← ho.styleFor]
  exact reads_pure _ _

/-- The code of a plot up to its expression. -/
def plotFront (s : Style) : List Char :=
  "\\addplot".toList ++ ((s.code "draw").toList ++ " \x7b".toList)

section Plot

variable {f : Options → Reader Element} {cs : List Char} {e : Element}

theorem after?_plus_code (s : Style) (cs : List Char) :
    Text.after? "+".toList ((s.code "draw").toList ++ (" \x7b".toList ++ cs)) = none := by
  unfold Style.code
  split
  · rfl
  · next hos =>
    rw [String.toList_append, String.toList_append, List.append_assoc, List.append_assoc]
    rfl

theorem plotFront_append (s : Style) (cs : List Char) : plotFront s ++ cs =
    "\\addplot".toList ++ ((s.code "draw").toList ++ (" \x7b".toList ++ cs)) := by
  unfold plotFront
  rw [List.append_assoc, List.append_assoc]

theorem reads_plot (hs : s.IsFinite)
    (h : ∀ o : Options, o.Says .plot s → Reads (f o) ('{' :: cs) e []) :
    Reads (do
        literal "\\addplot"
        let _ ← skips "+"
        spacing
        let o ← options
        spacing
        f o)
      (plotFront s ++ cs) e [] := by
  have hc : Text.isSpacing '{' = false := by decide
  obtain ⟨o, mid, ho, hr, hm⟩ := exists_reads_options hs .plot hc (by decide) cs
  rw [plotFront_append]
  refine (reads_literal "\\addplot" _).bind ?_
  refine (reads_skips_false (after?_plus_code s cs)).bind ?_
  refine (reads_spacing _).bind ?_
  refine hr.bind ?_
  refine (reads_spacing mid).bind ?_
  rw [hm]
  exact h o ho

theorem rejects_plot (hs : s.IsFinite) (h : ∀ o, Rejects (f o) ('{' :: cs)) :
    Rejects (do
        literal "\\addplot"
        let _ ← skips "+"
        spacing
        let o ← options
        spacing
        f o)
      (plotFront s ++ cs) := by
  have hc : Text.isSpacing '{' = false := by decide
  obtain ⟨o, mid, ho, hr, hm⟩ := exists_reads_options hs .plot hc (by decide) cs
  rw [plotFront_append]
  refine (reads_literal "\\addplot" _).bind_rejects ?_
  refine (reads_skips_false (after?_plus_code s cs)).bind_rejects ?_
  refine (reads_spacing _).bind_rejects ?_
  refine hr.bind_rejects ?_
  refine (reads_spacing mid).bind_rejects ?_
  rw [hm]
  exact h o

end Plot

/-- What closes the braces of a plot and ends its command. -/
structure IsClosing (inner gap after : List Char) : Prop where
  balanced : Braces.Balanced 0 inner
  gap : Text.IsSpacing gap
  after : Text.IsSpacing after

variable {inner gap after cs : List Char}

theorem reads_addplot (hs : s.IsFinite) (axis : Axis) (h : IsClosing inner gap after) :
    Reads (addplot axis) (plotFront s ++ (inner ++ '}' :: (gap ++ ';' :: after)))
      ⟨.plot ⟨.ofList (Text.trim inner), axis⟩, s⟩ [] := by
  refine reads_plot hs fun o ho => ?_
  refine (reads_braced h.balanced (gap ++ ';' :: after)).bind ?_
  refine (reads_finish h.gap h.after).bind ?_
  rw [ho.sampling, ho.styleFor]
  exact reads_pure _ _

theorem rejects_addplot (hs : s.IsFinite) (axis : Axis)
    (h : ∀ inner gap after, IsClosing inner gap after → cs ≠ inner ++ '}' :: (gap ++ ';' :: after)) :
    Rejects (addplot axis) (plotFront s ++ cs) := by
  refine rejects_plot hs fun o => ?_
  by_cases hb : ∃ inner, Braces.Balanced 0 inner ∧ ∃ rest, cs = inner ++ '}' :: rest
  · obtain ⟨inner, hi, rest, rfl⟩ := hb
    refine (reads_braced hi rest).bind_rejects (Rejects.bind (rejects_finish ?_))
    rintro gap after hg ha rfl
    exact h inner gap after ⟨hi, hg, ha⟩ rfl
  · refine Rejects.bind (rejects_braced fun inner hi rest hcs => ?_)
    exact hb ⟨inner, hi, rest, hcs⟩

/-! ### Whole lines -/

theorem exists_firstOf_eq (h : ∀ r ∈ rs, Rejects r text) : ∃ m, firstOf text rs = .error m := by
  induction rs with
  | nil => exact ⟨.shape, rfl⟩
  | cons r rs ih =>
    obtain ⟨m, hm⟩ := (h r (List.mem_cons_self ..)).exists_readLine_eq
    obtain ⟨m', hm'⟩ := ih fun r hr => h r (List.mem_cons_of_mem _ hr)
    refine ⟨m.or m', ?_⟩
    rw [firstOf, hm, hm']
    rfl

theorem rejects_shapes (h : Text.after? "\\draw".toList text = none) :
    ∀ r ∈ [circle, rectangle, line, grid], Rejects r text := by
  have hh : Rejects (head "\\draw") text := (rejects_literal h).bind
  intro r hr
  simp only [List.mem_cons, List.not_mem_nil, or_false] at hr
  rcases hr with rfl | rfl | rfl | rfl
  · exact hh.bind
  · exact hh.bind
  · exact hh.bind
  · exact hh.bind

theorem firstOf_append {rs' : List (Reader α)} (h : ∀ r ∈ rs, Rejects r text)
    (hs : firstOf text rs' = .ok a) : firstOf text (rs ++ rs') = .ok a := by
  induction rs with
  | nil => exact hs
  | cons r rs ih =>
    apply (h r (List.mem_cons_self ..)).firstOf_eq
    exact ih fun r hr => h r (List.mem_cons_of_mem _ hr)

theorem ofLine_shape {t : Shape} (ht : t.IsFinite) (hs : s.IsFinite) (axis : Axis) :
    ofLine axis (t.code s).toList = .ok (Element.reread axis ⟨.shape t, s⟩) := by
  cases t with
  | circle p x => exact (reads_circle hs ht.1 ht.2).firstOf_eq _
  | rectangle p x y =>
    have hr := reads_rectangle hs ht.1 ht.2
    have hf := readsFront_code hs
    simp only [Shape.code, String.toList_append, List.append_assoc] at hr ⊢
    refine Rejects.firstOf_eq (rejects_drawing hf ht.1 rfl) ?_
    exact hr.firstOf_eq _
  | line p q =>
    have hr := reads_line hs ht.1 ht.2
    have hf := readsFront_code hs
    simp only [Shape.code, String.toList_append, List.append_assoc] at hr ⊢
    refine Rejects.firstOf_eq (rejects_drawing hf ht.1 rfl) ?_
    refine Rejects.firstOf_eq (rejects_drawing hf ht.1 rfl) ?_
    exact hr.firstOf_eq _
  | grid p q =>
    have hr := reads_grid (s := s) ht.1 ht.2
    obtain ⟨t, hf⟩ := exists_readsFront_grid
    simp only [Shape.code, String.toList_append, List.append_assoc] at hr ⊢
    refine Rejects.firstOf_eq (rejects_drawing hf ht.1 rfl) ?_
    refine Rejects.firstOf_eq (rejects_drawing hf ht.1 rfl) ?_
    refine Rejects.firstOf_eq (rejects_drawing hf ht.1 rfl) ?_
    exact hr.firstOf_eq _

theorem ofLine_label {l : Label} (hl : l.position.IsFinite) (hs : s.IsFinite) (axis : Axis) :
    ofLine axis (Element.code ⟨.label l, s⟩).toList = .ok (Element.reread axis ⟨.label l, s⟩) := by
  have hn : Text.after? "\\draw".toList (Element.code ⟨.label l, s⟩).toList = none := by
    simp only [Element.code, String.toList_append, List.append_assoc]
    rfl
  exact firstOf_append (rejects_shapes hn) ((reads_node hs hl).firstOf_eq _)

theorem rejects_of_plotFront (s : Style) (cs : List Char) :
    ∀ r ∈ [circle, rectangle, line, grid] ++ [node], Rejects r (plotFront s ++ cs) := by
  rw [plotFront_append]
  intro r hr
  rcases List.mem_append.1 hr with hr | hr
  · exact rejects_shapes rfl r hr
  · cases List.mem_singleton.1 hr
    exact Rejects.bind (r := head "\\node") (Rejects.bind (rejects_literal rfl))

theorem ofLine_plot (hs : s.IsFinite) (axis : Axis) (h : IsClosing inner gap after) :
    ofLine axis (plotFront s ++ (inner ++ '}' :: (gap ++ ';' :: after))) =
      .ok ⟨.plot ⟨.ofList (Text.trim inner), axis⟩, s⟩ :=
  firstOf_append (rejects_of_plotFront s _) ((reads_addplot hs axis h).firstOf_eq _)

theorem exists_ofLine_plot_eq (hs : s.IsFinite) (axis : Axis)
    (h : ∀ inner gap after, IsClosing inner gap after → cs ≠ inner ++ '}' :: (gap ++ ';' :: after)) :
    ∃ m, ofLine axis (plotFront s ++ cs) = .error m := by
  apply exists_firstOf_eq
  intro r hr
  have hr : r ∈ ([circle, rectangle, line, grid] ++ [node]) ++ [addplot axis] := hr
  rcases List.mem_append.1 hr with hr | hr
  · exact rejects_of_plotFront s cs r hr
  · cases List.mem_singleton.1 hr
    exact rejects_addplot hs axis h

/-! ### The start of an axis block -/

/-- The axis that options open. -/
def opened (o : Options) : Axis :=
  { o.sampling {} with visible := o.axis.getD (o.sampling {}).visible }

theorem axis?_eq {o : Options} (h : Reads options (text.dropWhile Text.isSpacing) o rest) :
    axis? (axisBegin.toList ++ text) = some (opened o) := by
  have hr : Reads (do
      literal axisBegin
      spacing
      options) (axisBegin.toList ++ text) o rest :=
    (reads_literal axisBegin text).bind ((reads_spacing text).bind h)
  unfold axis?
  dsimp only
  rw [hr.readLine_eq]
  rfl

theorem axis?_eq_none (h : Text.after? axisBegin.toList text = none) : axis? text = none := by
  have hr : Rejects (do
      literal axisBegin
      spacing
      options) text := (rejects_literal h).bind
  obtain ⟨m, hm⟩ := hr.exists_readLine_eq
  unfold axis?
  dsimp only
  rw [hm]

/-- Whatever follows, the name alone opens an axis block. -/
theorem isSome_axis? (text : List Char) : (axis? text).isSome = axisBegin.toList.isPrefixOf text := by
  rw [Bool.eq_iff_iff, List.isPrefixOf_iff_prefix]
  cases hs : Text.after? axisBegin.toList text with
  | none =>
    rw [axis?_eq_none hs]
    constructor
    · intro h
      contradiction
    · rintro ⟨after, rfl⟩
      rw [Text.after?_eq_some.2 rfl] at hs
      contradiction
  | some after =>
    obtain rfl := Text.after?_eq_some.1 hs
    obtain ⟨o, rest, hr⟩ := exists_reads_options_any (after.dropWhile Text.isSpacing)
    rw [axis?_eq hr]
    exact iff_of_true rfl (List.prefix_append ..)

theorem axis?_eq_none_iff {text : List Char} :
    axis? text = none ↔ ¬axisBegin.toList <+: text := by
  rw [← Option.not_isSome_iff_eq_none, isSome_axis?, List.isPrefixOf_iff_prefix]

theorem axis?_code {a : Axis} (h : a.IsFinite) :
    axis? (axisBegin ++ a.code).toList = some a.unsigned := by
  have ho : opened (.ofText (", ".intercalate a.options).toList) = a.unsigned := by
    rw [a.ofText_options h]
    rfl
  rw [Axis.code_eq, String.toList_append, ← ho]
  have hc : ("[" ++ ", ".intercalate a.options ++ "]").toList =
      '[' :: (", ".intercalate a.options).toList ++ ']' :: [] := by
    rw [String.toList_append, String.toList_append]
    rfl
  rw [hc]
  exact axis?_eq (reads_options ((a.writes_options h).splitBefore?_eq []))

end Sketch.Command
