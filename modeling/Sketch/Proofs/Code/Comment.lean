import Sketch.Proofs.Code.Line

/-!
Comments in a whole text. A comment ends with its line, so the text before a place tells whether the
place is in a comment. A word stands at as many places outside comments as there are in the lines when
the comments are cut off.
-/

namespace Sketch

/-- How often a word stands in a text. -/
def Text.occurrences (word cs : List Char) : Nat := cs.tails.countP word.isPrefixOf

/-- How often a word stands in the lines of a text, without their comments. -/
def Reading.occurrences (word cs : List Char) : Nat :=
  ((Text.lines cs).map fun l => Text.occurrences word (stripComment false l)).sum

/-- What the next character of a text belongs to: the code, where it may be escaped, or a comment. -/
inductive Place
  | code (escaped : Bool)
  | comment
  deriving DecidableEq

namespace Place

variable {p : Place} {word cs ds : List Char} {c : Char}

def next (p : Place) (c : Char) : Place :=
  match p with
  | .comment => if c = '\n' then .code false else .comment
  | .code escaped =>
    if c = '\\' then .code !escaped
    else if c = '%' ∧ !escaped then .comment
    else .code false

/-- The place behind a text. -/
def after (cs : List Char) : Place := cs.foldl next (.code false)

theorem after_append (cs ds : List Char) : after (cs ++ ds) = ds.foldl next (after cs) :=
  List.foldl_append

theorem next_break (p : Place) : p.next '\n' = .code false := by
  cases p <;> rfl

theorem after_of_endsLine (h : Text.EndsLine cs) : after cs = .code false := by
  rcases h with rfl | h
  · rfl
  · obtain ⟨front, rfl⟩ := List.getLast?_eq_some_iff.1 h
    rw [after_append, List.foldl_cons, next_break, List.foldl_nil]

/-- How often a word stands at a place outside comments. -/
def occurrences (word : List Char) : Place → List Char → Nat
  | _, [] => 0
  | p, c :: cs => occurrences word (p.next c) cs + if word <+: c :: cs ∧ p ≠ .comment then 1 else 0

theorem occurrences_eq_zero_iff (hw : word ≠ []) : occurrences word p cs = 0 ↔
    ∀ before rest, cs = before ++ rest → word <+: rest → before.foldl next p = .comment := by
  induction cs generalizing p with
  | nil =>
    refine iff_of_true rfl fun before rest h hp => ?_
    rw [(List.append_eq_nil_iff.1 h.symm).2] at hp
    exact absurd (List.prefix_nil.1 hp) hw
  | cons c cs ih =>
    rw [occurrences, Nat.add_eq_zero_iff, ih]
    constructor
    · rintro ⟨hlater, hhere⟩ before rest h hp
      cases before with
      | nil =>
        rw [List.nil_append] at h
        by_contra hc
        rw [if_pos ⟨h ▸ hp, hc⟩] at hhere
        contradiction
      | cons b before =>
        obtain ⟨rfl, rfl⟩ := List.cons.inj (h.trans (List.cons_append ..))
        exact hlater before rest rfl hp
    · intro h
      refine ⟨fun before rest hcs hp => h (c :: before) rest (by rw [hcs, List.cons_append]) hp, ?_⟩
      exact if_neg fun ⟨hp, hc⟩ => hc (h [] (c :: cs) rfl hp)

theorem occurrences_of_not_infix (hw : word ≠ []) (h : ¬word <:+: cs) : occurrences word p cs = 0 := by
  rw [occurrences_eq_zero_iff hw]
  rintro before rest rfl hp
  exact absurd (hp.isInfix.trans (List.suffix_append ..).isInfix) h

/-- A backslash before another character may be escaped or not: that character is code after it. -/
theorem occurrences_command (hb : c ≠ '\\') (hp : c ≠ '%') (word : List Char) (escaped : Bool)
    (cs : List Char) : occurrences word (.code escaped) ('\\' :: c :: cs) =
      occurrences word (.code false) ('\\' :: c :: cs) := by
  have hbackslash : (Place.code escaped).next '\\' = .code !escaped := rfl
  have hnext (e : Bool) : (Place.code e).next c = (Place.code true).next c := by
    simp [next, hb, hp]
  rw [occurrences, occurrences, hbackslash, hnext]
  simp [occurrences, next, hb]

/-! ### Texts that are put together -/

/-- No word stands across the border to a text whose first character is not in a word but at its start. -/
theorem occurrences_append (hd : ∀ d, ds.head? = some d → d ∉ word.tail) (p : Place) (cs : List Char) :
    occurrences word p (cs ++ ds) = occurrences word p cs + occurrences word (cs.foldl next p) ds := by
  induction cs generalizing p with
  | nil => rw [occurrences, Nat.zero_add]; rfl
  | cons c cs ih =>
    rw [List.cons_append, occurrences, ih, occurrences, List.foldl_cons, ← List.cons_append]
    simp only [Text.prefix_append_iff hd (List.cons_ne_nil c cs)]
    omega

/-! ### Lines -/

theorem prefix_stripComment_iff (h : '%' ∉ word) (escaped : Bool) (cs : List Char) :
    word <+: Reading.stripComment escaped cs ↔ word <+: cs := by
  refine ⟨fun hp => hp.trans <| Reading.stripComment_prefix escaped cs, fun hp => ?_⟩
  induction word generalizing escaped cs with
  | nil => exact List.nil_prefix
  | cons w ws ih =>
    obtain ⟨rest, rfl⟩ := hp
    rw [List.mem_cons, not_or] at h
    rw [List.cons_append, Reading.stripComment]
    split
    · exact List.cons_prefix_cons.2 ⟨rfl, ih h.2 _ _ (List.prefix_append ..)⟩
    · rw [if_neg fun hc => h.1 hc.1.symm]
      exact List.cons_prefix_cons.2 ⟨rfl, ih h.2 _ _ (List.prefix_append ..)⟩

end Place

namespace Text

variable {word : List Char}

theorem occurrences_nil (h : word ≠ []) : occurrences word [] = 0 := by
  cases word with
  | nil => contradiction
  | cons => rfl

theorem occurrences_cons (word : List Char) (c : Char) (cs : List Char) :
    occurrences word (c :: cs) = occurrences word cs + if word <+: c :: cs then 1 else 0 := by
  rw [occurrences, List.tails_cons, List.countP_cons, occurrences]
  simp only [List.isPrefixOf_iff_prefix]

end Text

namespace Place

variable {p : Place} {word : List Char} {c : Char}

/-- What is left of a line when its comment is cut off. -/
def uncommented : Place → List Char → List Char
  | .code escaped, line => Reading.stripComment escaped line
  | .comment, _ => []

theorem occurrences_uncommented_cons (hw : word ≠ []) (hp : '%' ∉ word) (hc : c ≠ '\n')
    (line : List Char) : Text.occurrences word (p.uncommented (c :: line)) =
      Text.occurrences word ((p.next c).uncommented line) +
        if word <+: c :: line ∧ p ≠ .comment then 1 else 0 := by
  cases p with
  | comment => rw [next, if_neg hc, if_neg (by simp)]; rfl
  | code escaped =>
    have hstrip (e : Bool) (h : (Place.code escaped).next c = .code e)
        (hs : Reading.stripComment escaped (c :: line) = c :: Reading.stripComment e line) :
        Text.occurrences word (Reading.stripComment escaped (c :: line)) =
          Text.occurrences word (((Place.code escaped).next c).uncommented line) +
            if word <+: c :: line ∧ Place.code escaped ≠ .comment then 1 else 0 := by
      rw [hs, Text.occurrences_cons, ← hs, h]
      simp [prefix_stripComment_iff hp, uncommented]
    by_cases hb : c = '\\'
    · exact hstrip _ (if_pos hb) (by rw [Reading.stripComment, if_pos hb])
    · by_cases hm : c = '%' ∧ !escaped
      · have hn : ¬word <+: c :: line := by
          obtain ⟨w, ws, rfl⟩ := List.exists_cons_of_ne_nil hw
          intro h
          exact hp ((List.cons_prefix_cons.1 h).1.trans hm.1 ▸ List.mem_cons_self ..)
        rw [uncommented, Reading.stripComment, next, if_neg hb, if_pos hm, if_neg hb, if_pos hm,
          if_neg fun h => hn h.1]
        rfl
      · exact hstrip false (by rw [next, if_neg hb, if_neg hm])
          (by rw [Reading.stripComment, if_neg hb, if_neg hm])

theorem occurrences_eq_lines (hw : word ≠ []) (hp : '%' ∉ word) (hb : '\n' ∉ word) (p : Place)
    (cs : List Char) : occurrences word p cs =
      Text.occurrences word (p.uncommented ((Text.lines cs).headD [])) +
        ((Text.lines cs).tail.map fun l => Text.occurrences word (Reading.stripComment false l)).sum := by
  induction cs generalizing p with
  | nil =>
    cases p with
    | code => exact (Text.occurrences_nil hw).symm
    | comment => exact (Text.occurrences_nil hw).symm
  | cons c cs ih =>
    rw [occurrences, ih]
    by_cases hc : c = '\n'
    · subst hc
      have hn (ds : List Char) : ¬word <+: '\n' :: ds := by
        obtain ⟨w, ws, rfl⟩ := List.exists_cons_of_ne_nil hw
        intro h
        exact hb ((List.cons_prefix_cons.1 h).1 ▸ List.mem_cons_self ..)
      have hbreak : Text.occurrences word (p.uncommented ['\n']) = 0 := by
        cases p with
        | comment => exact Text.occurrences_nil hw
        | code escaped =>
          rw [uncommented, Reading.stripComment, if_neg (by decide), if_neg (by simp),
            Text.occurrences_cons, if_neg (hn _)]
          exact Text.occurrences_nil hw
      have hlines : Text.lines ('\n' :: cs) = ['\n'] :: Text.lines cs := rfl
      rw [hlines, List.headD_cons, List.tail_cons, hbreak, next_break, if_neg fun h => hn _ h.1,
        Nat.zero_add]
      cases Text.lines cs with
      | nil => exact Text.occurrences_nil hw
      | cons l ls => rw [List.map_cons, List.sum_cons]; rfl
    · have hhead : word <+: c :: (Text.lines cs).headD [] ↔ word <+: c :: cs := by
        rw [← Text.prefix_headD_lines_iff hb (c :: cs), Text.lines_cons_of_ne hc, List.headD_cons]
      rw [Text.lines_cons_of_ne hc, List.headD_cons, List.tail_cons, occurrences_uncommented_cons hw hp hc]
      simp only [hhead]
      omega

/-- The lines without their comments hold a word as often as it stands outside comments. -/
theorem occurrences_after_nil (hw : word ≠ []) (hp : '%' ∉ word) (hb : '\n' ∉ word) (cs : List Char) :
    Reading.occurrences word cs = occurrences word (after []) cs := by
  rw [occurrences_eq_lines hw hp hb, Reading.occurrences]
  cases Text.lines cs with
  | nil => exact (Text.occurrences_nil hw).symm
  | cons l ls => rw [List.map_cons, List.sum_cons]; rfl

end Place

end Sketch
