import Sketch.Proofs.Code.Grammar
import Sketch.Proofs.Code.Order

/-!
What commands are read. The readers accept just the sentences of the grammar, and give the elements
that the sentences describe.
-/

namespace Sketch

namespace Command

variable {c : Char} {cs rest : List Char} {word : String}

/-! ### Sentences are read -/

namespace Gap

theorem dropWhile_append (g : Gap) (cs : List Char) :
    (g.text ++ cs).dropWhile Text.isSpacing = cs.dropWhile Text.isSpacing :=
  List.dropWhile_append_of_pos g.isSpacing

theorem reads (g : Gap) (h : cs.dropWhile Text.isSpacing = cs) : Reads spacing (g.text ++ cs) () cs := by
  have hr := reads_spacing (g.text ++ cs)
  rwa [g.dropWhile_append, h] at hr

/-- Numbers end at a gap as at what follows it. -/
theorem not_isNumberChar (g : Gap) (h : ∀ d ∈ cs.head?, isNumberChar d = false) :
    ∀ d ∈ (g.text ++ cs).head?, isNumberChar d = false := by
  cases hg : g.text with
  | nil => exact h
  | cons b bs =>
    intro d hd
    cases hd
    have hb : Text.isSpacing b = true := g.isSpacing b (hg ▸ List.mem_cons_self ..)
    by_contra hn
    rw [Bool.not_eq_false] at hn
    rw [IsRun.isSpacing_of_isNumberChar hn] at hb
    contradiction

end Gap

/-- A word between gaps, before something that is no space. -/
theorem reads_between (before after : Gap)
    (hw : ∀ cs, (word.toList ++ cs).dropWhile Text.isSpacing = word.toList ++ cs)
    (h : cs.dropWhile Text.isSpacing = cs) :
    Reads (keyword word) (before.text ++ (word.toList ++ (after.text ++ cs))) () cs := by
  refine (before.reads (hw _)).bind ?_
  exact (reads_literal word _).bind (after.reads h)

namespace Numeral

theorem dropWhile_append (n : Numeral) (cs : List Char) :
    (n.text ++ cs).dropWhile Text.isSpacing = n.text ++ cs := by
  have hn : Text.IsSpacing [] := List.forall_mem_nil _
  exact n.isRun.dropWhile_isSpacing hn cs

theorem reads (n : Numeral) (h : ∀ d ∈ cs.head?, isNumberChar d = false) :
    Reads number (n.text ++ cs) n.value cs := by
  obtain ⟨ht, hd⟩ := n.isRun.takeWhile_isNumberChar h
  have hne : n.text.isEmpty = false := List.isEmpty_eq_false_iff.2 n.isRun.ne_nil
  intro k
  refine ⟨k + Text.size n.text, ?_⟩
  rw [number_apply]
  dsimp only
  rw [ht, hd, hne, n.read_eq]
  rfl

end Numeral

namespace Coordinates

theorem dropWhile_append (k : Coordinates) (cs : List Char) :
    (k.text ++ cs).dropWhile Text.isSpacing = k.text ++ cs := rfl

theorem reads (k : Coordinates) (cs : List Char) : Reads Command.point (k.text ++ cs) k.point cs := by
  simp only [text, List.cons_append, List.append_assoc, List.nil_append]
  refine (reads_literal "(" _).bind ?_
  refine (k.beforeX.reads (k.x.dropWhile_append _)).bind ?_
  refine (k.x.reads (k.afterX.not_isNumberChar (by simp [isNumberChar]))).bind ?_
  refine (reads_between k.afterX k.beforeY (fun _ => rfl) (k.y.dropWhile_append _)).bind ?_
  refine (k.y.reads (k.afterY.not_isNumberChar (by simp [isNumberChar]))).bind ?_
  refine (k.afterY.reads rfl).bind ?_
  exact (reads_literal ")" cs).bind (reads_pure _ cs)

end Coordinates

/-- A front ends at anything that is neither a space nor a bracket. -/
theorem Front.reads {α : Type} {f : Options → Reader α} {a : α} (front : Front)
    (hc : Text.isSpacing c = false) (hb : c ≠ '[') (h : Reads (f front.options) (c :: cs) a rest) :
    Reads (do
        spacing
        let o ← Command.options
        spacing
        f o)
      (front.text ++ c :: cs) a rest := by
  have hd : (c :: cs).dropWhile Text.isSpacing = c :: cs := by
    rw [List.dropWhile_cons_of_neg]
    simp [hc]
  obtain ⟨lead, group, trail⟩ := front
  cases group with
  | none =>
    -- The first reader of spaces takes both gaps.
    have hlead := reads_spacing (lead.text ++ (trail.text ++ c :: cs))
    rw [lead.dropWhile_append, trail.dropWhile_append, hd] at hlead
    have htrail := reads_spacing (c :: cs)
    rw [hd] at htrail
    rw [Front.text, List.nil_append, List.append_assoc]
    refine hlead.bind ?_
    refine (reads_options_empty fun ds h => hb (List.cons.inj h).1).bind ?_
    exact htrail.bind h
  | some g =>
    simp only [Front.text, List.cons_append, List.append_assoc, List.nil_append]
    refine (lead.reads rfl).bind ?_
    refine (reads_options (g.reaches.splitBefore?_append (by decide) _)).bind ?_
    exact (trail.reads hd).bind h

/-- A plus sign before the front is no part of it. -/
theorem Front.after?_plus (front : Front) (cs : List Char) :
    Text.after? "+".toList (front.text ++ '{' :: cs) = none := by
  cases h : Text.after? "+".toList (front.text ++ '{' :: cs) with
  | none => rfl
  | some rest =>
    have hd := congrArg (List.dropWhile Text.isSpacing) (Text.after?_eq_some.1 h)
    obtain ⟨lead, group, trail⟩ := front
    cases group with
    | none =>
      simp only [Front.text, List.nil_append, List.append_assoc, Gap.dropWhile_append] at hd
      exact absurd (List.cons.inj hd).1 (by decide)
    | some g =>
      simp only [Front.text, List.cons_append, List.append_assoc, Gap.dropWhile_append] at hd
      exact absurd (List.cons.inj hd).1 (by decide)

theorem Front.reads_head (front : Front) (name : String) (hc : Text.isSpacing c = false) (hb : c ≠ '[') :
    Reads (head name) (name.toList ++ (front.text ++ c :: cs)) front.options (c :: cs) :=
  (reads_literal name _).bind (front.reads hc hb (reads_pure _ _))

theorem Group.reads (g : Group '}') (cs : List Char) :
    Reads braced ('{' :: (g.inner ++ '}' :: cs)) g.inner cs :=
  reads_braced g.reaches.balanced cs

theorem Ending.reads (e : Ending) : Reads finish e.text () [] :=
  reads_finish e.before.isSpacing e.after.isSpacing

theorem Ending.reads_pure {α : Type} (e : Ending) (a : α) :
    Reads (do
        finish
        return a)
      e.text a [] := e.reads.bind (Command.reads_pure a [])

namespace Sentence

section Drawing

variable {f : Options → Point → Reader Element} {e : Element} {front : Front} {start : Coordinates}
  {before after : Gap} {ending : Ending}

theorem reads_draw (hw : ∀ cs, (word.toList ++ cs).dropWhile Text.isSpacing = word.toList ++ cs)
    (hd : rest.dropWhile Text.isSpacing = rest) (h : Reads (f front.options start.point) rest e []) :
    Reads (do
        let o ← head "\\draw"
        let p ← point
        keyword word
        f o p)
      ("\\draw".toList ++ (front.text ++ (start.text ++ (before.text ++ (word.toList ++
        (after.text ++ rest)))))) e [] := by
  refine (front.reads_head "\\draw" rfl (by decide)).bind ?_
  refine (start.reads _).bind ?_
  exact (reads_between before after hw hd).bind h

/-- All spaces are read at once where the unit is left out. -/
theorem reads_unit {α : Type} {r : Reader α} {a : α} (right : Gap) (unit : Bool) (last : Gap)
    (h : Reads r (')' :: cs) a rest) :
    Reads (do
        spacing
        let _ ← skips "cm"
        spacing
        r)
      (right.text ++ ((if unit then "cm".toList else []) ++ (last.text ++ ')' :: cs))) a rest := by
  cases unit with
  | true =>
    refine (right.reads rfl).bind ?_
    refine (reads_skips "cm" _).bind ?_
    exact (last.reads rfl).bind h
  | false =>
    have hright := reads_spacing (right.text ++ (last.text ++ ')' :: cs))
    rw [right.dropWhile_append, last.dropWhile_append] at hright
    refine hright.bind ?_
    refine (reads_skips_false rfl).bind ?_
    exact (reads_spacing _).bind h

theorem reads_circle (axis : Axis) (left : Gap) (radius : Numeral) (right : Gap) (unit : Bool) (last : Gap) :
    let s := draw front start before after (.circle left radius right unit last) ending
    Reads circle s.text (s.element axis) [] := by
  have hend : ∀ d ∈ ((if unit then "cm".toList else []) ++ (last.text ++ ')' :: ending.text)).head?,
      isNumberChar d = false := by
    cases unit with
    | true => simp [isNumberChar]
    | false => exact last.not_isNumberChar (by simp [isNumberChar])
  refine reads_draw (fun _ => rfl) rfl ?_
  simp only [Drawing.text, List.cons_append, List.append_assoc, List.nil_append]
  refine (reads_literal "(" _).bind ?_
  refine (left.reads (radius.dropWhile_append _)).bind ?_
  refine (radius.reads (right.not_isNumberChar hend)).bind ?_
  refine reads_unit right unit last ?_
  exact (reads_literal ")" _).bind (ending.reads_pure _)

theorem reads_rectangle (axis : Axis) (plus : Option Gap) (corner : Coordinates) :
    let s := draw front start before after (.rectangle plus corner) ending
    Reads rectangle s.text (s.element axis) [] := by
  cases plus with
  | none =>
    refine reads_draw (fun _ => rfl) rfl ?_
    refine (reads_skips_false rfl).bind ?_
    exact (corner.reads _).bind (ending.reads_pure _)
  | some gap =>
    refine reads_draw (fun _ => rfl) rfl ?_
    simp only [Drawing.text, List.append_assoc]
    refine (reads_skips "++" _).bind ?_
    refine (gap.reads (corner.dropWhile_append _)).bind ?_
    exact (corner.reads _).bind (ending.reads_pure _)

theorem reads_line (axis : Axis) (stop : Coordinates) :
    let s := draw front start before after (.line stop) ending
    Reads line s.text (s.element axis) [] :=
  reads_draw (fun _ => rfl) rfl ((stop.reads _).bind (ending.reads_pure _))

theorem reads_grid (axis : Axis) (opposite : Coordinates) :
    let s := draw front start before after (.grid opposite) ending
    Reads grid s.text (s.element axis) [] :=
  reads_draw (fun _ => rfl) rfl ((opposite.reads _).bind (ending.reads_pure _))

end Drawing

theorem reads_node (axis : Axis) (front : Front) (after : Gap) (position : Coordinates) (gap : Gap)
    (content : Group '}') (ending : Ending) :
    let s := node front after position gap content ending
    Reads Command.node s.text (s.element axis) [] := by
  have hn : Text.IsSpacing [] := List.forall_mem_nil _
  refine (front.reads_head "\\node" rfl (by decide)).bind ?_
  refine (reads_between ⟨[], hn⟩ after (fun _ => rfl) (position.dropWhile_append _)).bind ?_
  refine (position.reads _).bind ?_
  refine (gap.reads rfl).bind ?_
  exact (content.reads _).bind (ending.reads_pure _)

theorem reads_addplot (axis : Axis) (plus : Bool) (front : Front) (expression : Group '}') (ending : Ending) :
    let s := addplot plus front expression ending
    Reads (Command.addplot axis) s.text (s.element axis) [] := by
  have hplus (cs : List Char) : ∃ found, Reads (skips "+")
      ((if plus then "+".toList else []) ++ (front.text ++ '{' :: cs)) found (front.text ++ '{' :: cs) := by
    cases plus with
    | true => exact ⟨true, reads_skips "+" _⟩
    | false => exact ⟨false, reads_skips_false (front.after?_plus _)⟩
  obtain ⟨found, hfound⟩ := hplus (expression.inner ++ '}' :: ending.text)
  refine (reads_literal "\\addplot" _).bind ?_
  refine hfound.bind ?_
  refine front.reads rfl (by decide) ?_
  exact (expression.reads _).bind (ending.reads_pure _)

/-- A sentence is read by the reader of its name. -/
theorem exists_reads (s : Sentence) (axis : Axis) :
    ∃ r, (s.name, r) ∈ table axis ∧ Reads r s.text (s.element axis) [] := by
  cases s with
  | draw front start before after drawing ending =>
    cases drawing with
    | circle left radius right unit last =>
      exact ⟨circle, .head _, reads_circle axis left radius right unit last⟩
    | rectangle plus corner => exact ⟨rectangle, .tail _ (.head _), reads_rectangle axis plus corner⟩
    | line stop => exact ⟨line, .tail _ (.tail _ (.head _)), reads_line axis stop⟩
    | grid opposite => exact ⟨grid, .tail _ (.tail _ (.tail _ (.head _))), reads_grid axis opposite⟩
  | node front after position gap content ending =>
    refine ⟨_, ?_, reads_node axis front after position gap content ending⟩
    exact .tail _ (.tail _ (.tail _ (.tail _ (.head _))))
  | addplot plus front expression ending =>
    refine ⟨_, ?_, reads_addplot axis plus front expression ending⟩
    exact .tail _ (.tail _ (.tail _ (.tail _ (.tail _ (.head _)))))

end Sentence

/-! ### What is read is a sentence -/

variable {k d : Cursor} {e : Element} {axis : Axis}

theorem exists_of_end_eq {α : Type} {a b : α}
    (h : (do
      finish
      return a : Reader α) k = .ok (b, d)) : ∃ e : Ending, k.rest = e.text ∧ b = a := by
  obtain ⟨_, k₁, hfinish, h⟩ := exists_of_bind_eq h
  obtain ⟨ending, he⟩ := exists_of_finish_eq hfinish
  exact ⟨ending, he, (eq_of_pure_eq h).1⟩

theorem exists_of_draw_eq {f : Options → Point → Reader Element}
    (h : (do
      let o ← head "\\draw"
      let p ← point
      keyword word
      f o p : Reader Element) k = .ok (e, d)) :
    ∃ (front : Front) (start : Coordinates) (before after : Gap) (m : Cursor),
      k.rest = "\\draw".toList ++ (front.text ++ (start.text ++ (before.text ++ (word.toList ++
        (after.text ++ m.rest))))) ∧ f front.options start.point m = .ok (e, d) := by
  obtain ⟨o, k₁, hhead, h⟩ := exists_of_bind_eq h
  obtain ⟨p, k₂, hpoint, h⟩ := exists_of_bind_eq h
  obtain ⟨_, k₃, hword, h⟩ := exists_of_bind_eq h
  obtain ⟨front, rfl, hf⟩ := exists_front_of_head_eq hhead
  obtain ⟨start, rfl, hs⟩ := exists_of_point_eq hpoint
  obtain ⟨before, after, hw⟩ := exists_of_keyword_eq hword
  exact ⟨front, start, before, after, k₃, by rw [hf, hs, hw], h⟩

/-- A text that derives an element as a sentence of a name. -/
def Derives (axis : Axis) (name : String) (text : List Char) (e : Element) : Prop :=
  ∃ s : Sentence, s.name = name ∧ s.text = text ∧ s.element axis = e

theorem derives_of_circle (h : circle k = .ok (e, d)) : Derives axis "circle" k.rest e := by
  obtain ⟨front, start, before, after, m, hk, h⟩ := exists_of_draw_eq h
  obtain ⟨_, k₁, hopen, h⟩ := exists_of_bind_eq h
  obtain ⟨_, k₂, hleft, h⟩ := exists_of_bind_eq h
  obtain ⟨r, k₃, hradius, h⟩ := exists_of_bind_eq h
  obtain ⟨_, k₄, hright, h⟩ := exists_of_bind_eq h
  obtain ⟨unit, k₅, hunit, h⟩ := exists_of_bind_eq h
  obtain ⟨_, k₆, hlast, h⟩ := exists_of_bind_eq h
  obtain ⟨_, k₇, hclose, h⟩ := exists_of_bind_eq h
  obtain ⟨ending, he, rfl⟩ := exists_of_end_eq h
  obtain ⟨left, hl⟩ := exists_of_spacing_eq hleft
  obtain ⟨radius, rfl, hr⟩ := exists_of_number_eq hradius
  obtain ⟨right, hri⟩ := exists_of_spacing_eq hright
  obtain ⟨last, hla⟩ := exists_of_spacing_eq hlast
  refine ⟨.draw front start before after (.circle left radius right unit last) ending, rfl, ?_, rfl⟩
  have hcm : k₄.rest = (if unit then "cm".toList else []) ++ k₅.rest := by
    rcases exists_of_skips_eq hunit with ⟨rfl, hc⟩ | ⟨rfl, -, rfl⟩
    · exact hc
    · rfl
  have ho : m.rest = '(' :: k₁.rest := append_of_literal_eq hopen
  have hcl : k₆.rest = ')' :: k₇.rest := append_of_literal_eq hclose
  have hd : (Drawing.circle left radius right unit last).text ++ ending.text = m.rest := by
    rw [ho, hl, hr, hri, hcm, hla, hcl, he, Drawing.text]
    simp only [List.cons_append, List.append_assoc, List.nil_append]
  rw [hk, ← hd]
  rfl

theorem derives_of_rectangle (h : rectangle k = .ok (e, d)) : Derives axis "rectangle" k.rest e := by
  obtain ⟨front, start, before, after, m, hk, h⟩ := exists_of_draw_eq h
  obtain ⟨relative, k₁, hrelative, hrest⟩ := exists_of_bind_eq h
  rcases exists_of_skips_eq hrelative with ⟨rfl, hplus⟩ | ⟨rfl, -, rfl⟩
  · dsimp only at hrest
    rw [if_pos rfl] at hrest
    obtain ⟨_, k₂, hgap, hrest⟩ := exists_of_bind_eq hrest
    obtain ⟨p, k₃, hpoint, hend⟩ := exists_of_bind_eq hrest
    obtain ⟨ending, he, rfl⟩ := exists_of_end_eq hend
    obtain ⟨gap, hg⟩ := exists_of_spacing_eq hgap
    obtain ⟨corner, rfl, hc⟩ := exists_of_point_eq hpoint
    refine ⟨.draw front start before after (.rectangle (some gap) corner) ending, rfl, ?_, rfl⟩
    have hd : (Drawing.rectangle (some gap) corner).text ++ ending.text = m.rest := by
      rw [hplus, hg, hc, he, Drawing.text, List.append_assoc, List.append_assoc]
    rw [hk, ← hd]
    rfl
  · dsimp only at hrest
    rw [if_neg Bool.false_ne_true] at hrest
    obtain ⟨p, k₂, hpoint, hend⟩ := exists_of_bind_eq hrest
    obtain ⟨ending, he, rfl⟩ := exists_of_end_eq hend
    obtain ⟨corner, rfl, hc⟩ := exists_of_point_eq hpoint
    refine ⟨.draw front start before after (.rectangle none corner) ending, rfl, ?_, rfl⟩
    rw [hk, hc, he]
    rfl

theorem derives_of_line (h : line k = .ok (e, d)) : Derives axis "line" k.rest e := by
  obtain ⟨front, start, before, after, m, hk, h⟩ := exists_of_draw_eq h
  obtain ⟨p, k₁, hpoint, h⟩ := exists_of_bind_eq h
  obtain ⟨ending, he, rfl⟩ := exists_of_end_eq h
  obtain ⟨stop, rfl, hs⟩ := exists_of_point_eq hpoint
  refine ⟨.draw front start before after (.line stop) ending, rfl, ?_, rfl⟩
  rw [hk, hs, he]
  rfl

theorem derives_of_grid (h : grid k = .ok (e, d)) : Derives axis "grid" k.rest e := by
  obtain ⟨front, start, before, after, m, hk, h⟩ := exists_of_draw_eq h
  obtain ⟨p, k₁, hpoint, h⟩ := exists_of_bind_eq h
  obtain ⟨ending, he, rfl⟩ := exists_of_end_eq h
  obtain ⟨opposite, rfl, hs⟩ := exists_of_point_eq hpoint
  refine ⟨.draw front start before after (.grid opposite) ending, rfl, ?_, rfl⟩
  rw [hk, hs, he]
  rfl

theorem derives_of_node (h : node k = .ok (e, d)) : Derives axis "node" k.rest e := by
  obtain ⟨o, k₁, hhead, h⟩ := exists_of_bind_eq h
  obtain ⟨_, k₂, hword, h⟩ := exists_of_bind_eq h
  obtain ⟨p, k₃, hpoint, h⟩ := exists_of_bind_eq h
  obtain ⟨_, k₄, hgap, h⟩ := exists_of_bind_eq h
  obtain ⟨text, k₅, hbraces, h⟩ := exists_of_bind_eq h
  obtain ⟨ending, he, rfl⟩ := exists_of_end_eq h
  obtain ⟨front, rfl, hf⟩ := exists_front_of_head_eq hhead
  obtain ⟨before, after, hw⟩ := exists_of_keyword_eq hword
  obtain ⟨position, rfl, hp⟩ := exists_of_point_eq hpoint
  obtain ⟨gap, hg⟩ := exists_of_spacing_eq hgap
  obtain ⟨content, rfl, hc⟩ := exists_of_braces_eq hbraces
  -- The head has taken all spaces, so there are none left before the keyword, but that is not needed.
  refine ⟨.node (front.extend before) after position gap content ending, rfl, ?_, rfl⟩
  have ht : (front.extend before).text ++ ("at".toList ++ (after.text ++ (position.text ++ (gap.text ++
      ('{' :: (content.inner ++ '}' :: ending.text)))))) = front.text ++ k₁.rest := by
    rw [hw, hp, hg, hc, he, front.text_extend, List.append_assoc]
  rw [hf, ← ht]
  rfl

theorem derives_of_addplot (h : addplot axis k = .ok (e, d)) : Derives axis "addplot" k.rest e := by
  obtain ⟨_, k₁, hname, h⟩ := exists_of_bind_eq h
  obtain ⟨plus, k₂, hplus, h⟩ := exists_of_bind_eq h
  obtain ⟨_, k₃, hlead, h⟩ := exists_of_bind_eq h
  obtain ⟨o, k₄, ho, h⟩ := exists_of_bind_eq h
  obtain ⟨_, k₅, htrail, h⟩ := exists_of_bind_eq h
  obtain ⟨text, k₆, hbraces, h⟩ := exists_of_bind_eq h
  obtain ⟨ending, he, rfl⟩ := exists_of_end_eq h
  obtain ⟨front, rfl, hf⟩ := exists_front_of_eq hlead ho htrail
  obtain ⟨expression, rfl, hb⟩ := exists_of_braces_eq hbraces
  refine ⟨.addplot plus front expression ending, rfl, ?_, rfl⟩
  have hp : k₁.rest = (if plus then "+".toList else []) ++ k₂.rest := by
    rcases exists_of_skips_eq hplus with ⟨rfl, hc⟩ | ⟨rfl, -, rfl⟩
    · exact hc
    · rfl
  rw [append_of_literal_eq hname, hp, hf, hb, he]
  rfl

/-! ### The table -/

variable {p : String × Reader Element} {text : List Char}

theorem derives_of_readLine (hp : p ∈ table axis) (h : readLine p.2 text = .ok e) :
    Derives axis p.1 text e := by
  obtain ⟨d, hd⟩ := exists_of_readLine_eq h
  simp only [table, List.mem_cons, List.not_mem_nil, or_false] at hp
  rcases hp with rfl | rfl | rfl | rfl | rfl | rfl
  · exact derives_of_circle hd
  · exact derives_of_rectangle hd
  · exact derives_of_line hd
  · exact derives_of_grid hd
  · exact derives_of_node hd
  · exact derives_of_addplot hd

theorem nodup_names (axis : Axis) : ((table axis).map (·.1)).Nodup := by
  change ["circle", "rectangle", "line", "grid", "node", "addplot"].Nodup
  decide

theorem readLine_of_derives (hp : p ∈ table axis) (h : Derives axis p.1 text e) :
    readLine p.2 text = .ok e := by
  obtain ⟨s, hname, rfl, rfl⟩ := h
  obtain ⟨r, hr, hreads⟩ := s.exists_reads axis
  obtain rfl := List.inj_on_of_nodup_map (nodup_names axis) hp hr hname.symm
  exact hreads.readLine_eq

theorem exists_readLine_iff : (∃ p ∈ table axis, readLine p.2 text = .ok e) ↔
    ∃ s : Sentence, s.text = text ∧ s.element axis = e := by
  constructor
  · rintro ⟨p, hp, h⟩
    obtain ⟨s, -, hs⟩ := derives_of_readLine hp h
    exact ⟨s, hs⟩
  · rintro ⟨s, rfl, rfl⟩
    obtain ⟨r, hr, hreads⟩ := s.exists_reads axis
    exact ⟨_, hr, hreads.readLine_eq⟩

theorem ofLine_eq_ok_iff_mem : ofLine axis text = .ok e ↔
    ∃ p ∈ table axis, readLine p.2 text = .ok e := by
  constructor
  · intro h
    obtain ⟨r, hr, hread⟩ := exists_mem_of_firstOf_eq h
    obtain ⟨p, hp, rfl⟩ := List.mem_map.1 hr
    exact ⟨p, hp, hread⟩
  · rintro ⟨p, hp, h⟩
    exact firstOf_of_mem (pairwise_table axis) (List.mem_map_of_mem hp) h

theorem ofLine_eq_ok_iff : ofLine axis text = .ok e ↔
    ∃ s : Sentence, s.text = text ∧ s.element axis = e := ofLine_eq_ok_iff_mem.trans exists_readLine_iff

theorem Sentence.ofLine_text (s : Sentence) (axis : Axis) : ofLine axis s.text = .ok (s.element axis) :=
  ofLine_eq_ok_iff.2 ⟨s, rfl, rfl⟩

/-- A reader accepts just the sentences of its name, and gives what they describe. So does the table. -/
theorem accepts_iff_sentence (axis : Axis) (text : List Char) (e : Element) :
    (∀ p ∈ table axis, readLine p.2 text = .ok e ↔
      ∃ s : Sentence, s.name = p.1 ∧ s.text = text ∧ s.element axis = e) ∧
    ((∃ p ∈ table axis, readLine p.2 text = .ok e) ↔
      ∃ s : Sentence, s.text = text ∧ s.element axis = e) ∧
    (ofLine axis text = .ok e ↔ ∃ s : Sentence, s.text = text ∧ s.element axis = e) :=
  ⟨fun _ hp => ⟨derives_of_readLine hp, readLine_of_derives hp⟩, exists_readLine_iff, ofLine_eq_ok_iff⟩

/-- A rectangle with hardly a space where one is usual, and with spaces elsewhere. -/
def uneven : List Char := "\\draw [thick]( 1 ,2)rectangle++ (3,-4.5) ; ".toList

theorem accepts_iff_sentence_uneven : ("rectangle", rectangle) ∈ table {} ∧
    ∃ s : Sentence, s.name = "rectangle" ∧ s.text = uneven ∧
      s.element {} = drawn (.ofText "thick".toList) (.rectangle ⟨1, 2⟩ 3 (-4.5)) := by
  have hmem : ("rectangle", rectangle) ∈ table {} := .tail _ (.head _)
  have hread : readLine rectangle uneven =
    .ok (drawn (.ofText "thick".toList) (.rectangle ⟨1, 2⟩ 3 (-4.5))) := rfl
  exact ⟨hmem, ((accepts_iff_sentence {} uneven _).1 _ hmem).1 hread⟩

end Command

end Sketch
