import Sketch.Proofs.Code.Comment
import Sketch.Proofs.Session.Insertion

/-!
The place of a snippet. A snippet is put before the last end of a picture, wherever that stands. If it
stands in a comment, the rest of the comment from there on becomes code.
-/

namespace Sketch

/-- How many ends of pictures stand outside comments. -/
def Reading.pictureEnds (code : List Char) : Nat := occurrences Command.pictureEnd.toList code

namespace Snippet

open Command (pictureEnd)

variable {p : Place} {code before rest snippet line : List Char}

/-- The last end of a picture outside comments stands between the two texts. -/
structure IsLastEnd (before rest : List Char) : Prop where
  prefix_rest : pictureEnd.toList <+: rest
  after_ne : Place.after before ≠ .comment
  after_eq : ∀ more found, rest = more ++ found → more ≠ [] → pictureEnd.toList <+: found →
    Place.after (before ++ more) = .comment

/-- The line feed before a snippet, unless a line starts there. -/
def gap (before : List Char) : List Char :=
  if before = [] ∨ before.getLast? = some '\n' then [] else ['\n']

/-- A snippet on lines of its own between two texts. -/
def between (before snippet rest : List Char) : List Char :=
  before ++ gap before ++ block snippet ++ rest

theorem splice_eq_between (h : Text.splitLast? pictureEnd.toList code = some (before, rest))
    (snippet : List Char) : splice code snippet = between before snippet rest := by
  rw [splice, h]
  rfl

theorem endsLine_append_gap (before : List Char) : Text.EndsLine (before ++ gap before) := by
  unfold gap
  split
  · next h => rwa [List.append_nil]
  · exact .concat _

theorem pictureEnd_ne_nil : pictureEnd.toList ≠ [] := by decide

/-! ### Ends of pictures in texts that are put together -/

theorem pictureEnds_eq (code : List Char) :
    Reading.pictureEnds code = Place.occurrences pictureEnd.toList (Place.after []) code :=
  Place.occurrences_after_nil pictureEnd_ne_nil (by decide) (by decide) code

/-- What is before an end does not matter to the text from there on, if it is no comment. -/
theorem occurrences_of_prefix (hr : pictureEnd.toList <+: rest) (hp : p ≠ .comment) :
    Place.occurrences pictureEnd.toList p rest =
      Place.occurrences pictureEnd.toList (.code false) rest := by
  cases p with
  | comment => contradiction
  | code escaped =>
    obtain ⟨cs, rfl⟩ := hr
    exact Place.occurrences_command (by decide) (by decide) _ escaped ("nd\x7btikzpicture\x7d".toList ++ cs)

theorem occurrences_of_last (hr : pictureEnd.toList <+: rest) (ht : ¬pictureEnd.toList <:+: rest.tail)
    (p : Place) : Place.occurrences pictureEnd.toList p rest = if p = .comment then 0 else 1 := by
  cases rest with
  | nil => exact absurd (List.prefix_nil.1 hr) pictureEnd_ne_nil
  | cons c cs =>
    rw [List.tail_cons] at ht
    rw [Place.occurrences, Place.occurrences_of_not_infix pictureEnd_ne_nil ht]
    simp [hr]

theorem head?_of_prefix (hr : pictureEnd.toList <+: rest) {d : Char} (hd : rest.head? = some d) :
    d ∉ pictureEnd.toList.tail := by
  obtain ⟨cs, rfl⟩ := hr
  cases hd
  decide

theorem pictureEnds_append (hr : pictureEnd.toList <+: rest) (before : List Char) :
    Reading.pictureEnds (before ++ rest) =
      Place.occurrences pictureEnd.toList (Place.after []) before +
        Place.occurrences pictureEnd.toList (Place.after before) rest := by
  rw [pictureEnds_eq, Place.occurrences_append fun _ => head?_of_prefix hr]
  rfl

theorem infix_indented_iff : pictureEnd.toList <:+: indented line ↔ pictureEnd.toList <:+: line := by
  have hw : ∀ c ∈ pictureEnd.toList, Text.isBlank c = false := by decide
  obtain ⟨blanks, hb, hline, -⟩ := Text.exists_withoutBreak_eq line
  rw [← Text.infix_trim_iff pictureEnd_ne_nil hw, indented, Text.trim_append_right _ Text.isBlank_break,
    Text.trim_append_left Reading.isBlank_indent.1, ← Text.trim_append_right _ hb, ← hline,
    Text.infix_trim_iff pictureEnd_ne_nil hw]

theorem head?_flatMap_indented (ls : List (List Char)) {d : Char}
    (hd : (ls.flatMap indented).head? = some d) : d ∉ pictureEnd.toList.tail := by
  cases ls with
  | nil => contradiction
  | cons l ls =>
    cases hd
    decide

theorem occurrences_flatMap_indented {ls : List (List Char)}
    (h : ∀ l ∈ ls, ¬pictureEnd.toList <:+: l) (p : Place) :
    Place.occurrences pictureEnd.toList p (ls.flatMap indented) = 0 := by
  induction ls generalizing p with
  | nil => rfl
  | cons l ls ih =>
    rw [List.flatMap_cons, Place.occurrences_append fun _ => head?_flatMap_indented ls,
      ih fun l hl => h l (List.mem_cons_of_mem _ hl), Nat.add_zero]
    exact Place.occurrences_of_not_infix pictureEnd_ne_nil
      fun hi => h l (List.mem_cons_self ..) (infix_indented_iff.1 hi)

theorem occurrences_block (h : ¬pictureEnd.toList <:+: snippet) (p : Place) :
    Place.occurrences pictureEnd.toList p (block snippet) = 0 := by
  refine occurrences_flatMap_indented (fun l hl hi => h ?_) p
  have hflat := List.infix_of_mem_flatten hl
  rw [Text.flatten_lines] at hflat
  exact hi.trans hflat

theorem occurrences_append_gap (before : List Char) (p : Place) :
    Place.occurrences pictureEnd.toList p (before ++ gap before) =
      Place.occurrences pictureEnd.toList p before := by
  unfold gap
  split
  · rw [List.append_nil]
  · have hd : ∀ d, ['\n'].head? = some d → d ∉ pictureEnd.toList.tail := by
      rintro d hd
      cases hd
      decide
    have hbreak : ¬pictureEnd.toList <:+: ['\n'] := by decide
    rw [Place.occurrences_append hd, Place.occurrences_of_not_infix pictureEnd_ne_nil hbreak, Nat.add_zero]

/-- A line starts behind a snippet, so what stands there is in no comment from before. -/
theorem pictureEnds_between (hr : pictureEnd.toList <+: rest) (hs : ¬pictureEnd.toList <:+: snippet)
    (before : List Char) : Reading.pictureEnds (between before snippet rest) =
      Place.occurrences pictureEnd.toList (Place.after []) before +
        Place.occurrences pictureEnd.toList (.code false) rest := by
  have hline := (endsLine_append_gap before).append (endsLine_block snippet)
  have hblock := Place.occurrences_append (fun _ => head?_flatMap_indented (Text.lines snippet))
    (Place.after []) (before ++ gap before)
  rw [between, pictureEnds_append hr, Place.after_of_endsLine hline]
  change Place.occurrences _ _ (before ++ gap before ++ (Text.lines snippet).flatMap indented) + _ = _
  rw [hblock]
  change Place.occurrences _ _ (before ++ gap before) + Place.occurrences _ _ (block snippet) + _ = _
  rw [occurrences_block hs, occurrences_append_gap, Nat.add_zero]

/-- The ends behind a snippet are those from before, if the snippet is not put into a comment. -/
theorem pictureEnds_between_of_ne (hr : pictureEnd.toList <+: rest) (hb : Place.after before ≠ .comment)
    (hs : ¬pictureEnd.toList <:+: snippet) :
    Reading.pictureEnds (between before snippet rest) = Reading.pictureEnds (before ++ rest) := by
  rw [pictureEnds_between hr hs, pictureEnds_append hr, occurrences_of_prefix hr hb]

/-- Before the last end of all, a snippet brings that end out of its comment. -/
theorem pictureEnds_between_of_comment (hr : pictureEnd.toList <+: rest)
    (ht : ¬pictureEnd.toList <:+: rest.tail) (hb : Place.after before = .comment)
    (hs : ¬pictureEnd.toList <:+: snippet) :
    Reading.pictureEnds (between before snippet rest) = Reading.pictureEnds (before ++ rest) + 1 := by
  rw [pictureEnds_between hr hs, pictureEnds_append hr, occurrences_of_last hr ht,
    occurrences_of_last hr ht, hb]
  rfl

/-! ### The last end -/

theorem IsLastEnd.of_occurrences {c : Char} {cs : List Char} (hp : pictureEnd.toList <+: c :: cs)
    (hb : Place.after before ≠ .comment)
    (h : Place.occurrences pictureEnd.toList (Place.after (before ++ [c])) cs = 0) :
    IsLastEnd before (c :: cs) := by
  refine ⟨hp, hb, fun more found hmore hne hfound => ?_⟩
  obtain ⟨d, more, rfl⟩ := List.exists_cons_of_ne_nil hne
  obtain ⟨rfl, hcs⟩ := List.cons.inj (hmore.trans (List.cons_append ..))
  rw [List.append_cons, Place.after_append]
  exact (Place.occurrences_eq_zero_iff pictureEnd_ne_nil).1 h more found hcs hfound

theorem exists_isLastEnd {front cs : List Char}
    (h : Place.occurrences pictureEnd.toList (Place.after front) cs ≠ 0) :
    ∃ before rest, front ++ cs = before ++ rest ∧ IsLastEnd before rest := by
  induction cs generalizing front with
  | nil => exact absurd rfl h
  | cons c cs ih =>
    by_cases hl : Place.occurrences pictureEnd.toList (Place.after (front ++ [c])) cs = 0
    · have hnext : Place.after (front ++ [c]) = (Place.after front).next c := Place.after_append front [c]
      rw [Place.occurrences, ← hnext, hl, Nat.zero_add] at h
      obtain ⟨hp, hc⟩ := of_not_not fun hn => h (if_neg hn)
      exact ⟨front, c :: cs, rfl, .of_occurrences hp hc hl⟩
    · obtain ⟨before, rest, hcs, hlast⟩ := ih hl
      exact ⟨before, rest, by rw [← hcs, ← List.append_cons], hlast⟩

theorem infix_tail_of_append {more found : List Char} (hm : more ≠ [])
    (hf : pictureEnd.toList <+: found) : pictureEnd.toList <:+: (more ++ found).tail := by
  rw [List.tail_append_of_ne_nil hm]
  exact hf.isInfix.trans (List.suffix_append ..).isInfix

/-- The last end of all is not before the last one outside comments. -/
theorem IsLastEnd.exists_append {front back : List Char} (h : IsLastEnd before rest)
    (ht : ¬pictureEnd.toList <:+: back.tail) (heq : before ++ rest = front ++ back) :
    ∃ more, front = before ++ more ∧ rest = more ++ back := by
  rcases List.append_eq_append_iff.1 heq with ⟨more, hf, hr⟩ | ⟨more, hb, hback⟩
  · exact ⟨more, hf, hr⟩
  · cases more with
    | nil => exact ⟨[], by rw [hb, List.append_nil, List.append_nil], hback.symm⟩
    | cons d more =>
      rw [hback] at ht
      exact absurd (infix_tail_of_append (List.cons_ne_nil d more) h.prefix_rest) ht

/-- A snippet is put before the last end of a picture outside comments, and the ends outside comments
are as many as before, unless there is another end behind that one. It is in a comment until the
snippet is put before it, and outside from then on. -/
theorem splice_before_lastEnd_iff (hc : Reading.pictureEnds code ≠ 0)
    (hs : ¬pictureEnd.toList <:+: snippet) :
    ∃ before rest, code = before ++ rest ∧ IsLastEnd before rest ∧
      (splice code snippet = between before snippet rest ↔ ¬pictureEnd.toList <:+: rest.tail) ∧
      Reading.pictureEnds (splice code snippet) =
        Reading.pictureEnds code + if pictureEnd.toList <:+: rest.tail then 1 else 0 := by
  rw [pictureEnds_eq] at hc
  obtain ⟨before, rest, hcode, hlast⟩ := exists_isLastEnd hc
  rw [List.nil_append] at hcode
  have hinfix : pictureEnd.toList <:+: code := by
    rw [hcode]
    exact hlast.prefix_rest.isInfix.trans (List.suffix_append ..).isInfix
  obtain ⟨⟨front, back⟩, hsplit⟩ := Option.ne_none_iff_exists'.1 fun hn =>
    Text.not_infix_of_splitLast? pictureEnd_ne_nil hn hinfix
  obtain ⟨hback, htail⟩ := Text.prefix_of_splitLast? pictureEnd_ne_nil hsplit
  have hfound := Text.append_of_splitLast? hsplit
  rw [splice_eq_between hsplit]
  obtain ⟨more, rfl, rfl⟩ := hlast.exists_append htail (hcode.symm.trans hfound.symm)
  refine ⟨before, more ++ back, hcode, hlast, ?_⟩
  -- The two last ends are the same, or the one of all is behind the other, and thus in a comment.
  cases more with
  | nil =>
    have hcount := pictureEnds_between_of_ne hback hlast.after_ne hs
    rw [List.append_nil, List.nil_append, if_neg htail, hcount, hcode]
    exact ⟨iff_of_true rfl htail, rfl⟩
  | cons d more =>
    have hne : d :: more ≠ [] := List.cons_ne_nil d more
    have hbehind := infix_tail_of_append hne hback
    have hcomment := hlast.after_eq (d :: more) back rfl hne hback
    have hcount := pictureEnds_between_of_comment hback htail hcomment hs
    rw [hfound] at hcount
    refine ⟨iff_of_false (fun he => ?_) (not_not.2 hbehind), by rw [if_pos hbehind, hcount]⟩
    rw [he, pictureEnds_between_of_ne hlast.prefix_rest hlast.after_ne hs, ← hcode] at hcount
    exact absurd hcount (Nat.ne_of_lt (Nat.lt_succ_self _))

/-- A code with an end in a comment before the one that counts. -/
def doubtful : List Char :=
  "\\begin\x7btikzpicture\x7d\n% \\end\x7btikzpicture\x7d\n\\end\x7btikzpicture\x7d % done".toList

theorem splice_before_lastEnd_doubtful : ∃ before rest, doubtful = before ++ rest ∧
    IsLastEnd before rest ∧ splice doubtful "\\draw".toList = between before "\\draw".toList rest := by
  have hcode : Reading.pictureEnds doubtful = 1 := by decide +kernel
  have hspliced : Reading.pictureEnds (splice doubtful "\\draw".toList) = 1 := by decide +kernel
  have hne : Reading.pictureEnds doubtful ≠ 0 := by
    rw [hcode]
    decide
  have hsnippet : ¬pictureEnd.toList <:+: "\\draw".toList := by decide +kernel
  obtain ⟨before, rest, happend, hlast, hiff, hcount⟩ := splice_before_lastEnd_iff hne hsnippet
  refine ⟨before, rest, happend, hlast, hiff.2 fun hi => ?_⟩
  rw [hspliced, hcode, if_pos hi] at hcount
  contradiction

/-- A picture, and a comment that names its end. -/
def picture : List Char := "\\begin\x7btikzpicture\x7d\n".toList

def remark : List Char := "\\end\x7btikzpicture\x7d % \\end\x7btikzpicture\x7d".toList

/-- The snippet lands in the comment, whose rest becomes a second end of the picture. -/
theorem not_splice_before_lastEnd_remark :
    Reading.pictureEnds (picture ++ remark) = 1 ∧ IsLastEnd picture remark ∧
      ¬pictureEnd.toList <:+: "\\draw".toList ∧
      splice (picture ++ remark) "\\draw".toList ≠ between picture "\\draw".toList remark ∧
      Reading.pictureEnds (splice (picture ++ remark) "\\draw".toList) = 2 := by
  have hlast : IsLastEnd picture remark :=
    .of_occurrences (by decide +kernel) (by decide +kernel) (by decide +kernel)
  exact ⟨by decide +kernel, hlast, by decide +kernel, by decide +kernel, by decide +kernel⟩

end Snippet

end Sketch
