import Sketch.Proofs.Code.Pattern

/-!
The repair of numbers. If the numbers of a line are replaced by others, the line is like the same
patterns as before, except that a number may be read now that could not be read then.
-/

namespace Sketch

namespace Command

/-- A character with a number behind it. -/
def opensField (c : Char) : Bool := c == '(' || c == ','

theorem eq_of_opensField {c : Char} (h : opensField c = true) : c = '(' ∨ c = ',' := by
  simpa [opensField] using h

theorem isSpacing_of_opensField (c : Char) (h : opensField c = true) : Text.isSpacing c = false := by
  rcases eq_of_opensField h with rfl | rfl <;> rfl

theorem isNumberChar_of_opensField (c : Char) (h : opensField c = true) : isNumberChar c = false := by
  rcases eq_of_opensField h with rfl | rfl <;> rfl

/-- A run of number characters. -/
structure IsRun (run : List Char) : Prop where
  ne_nil : run ≠ []
  isNumberChar_of_mem : ∀ c ∈ run, isNumberChar c = true

/-- The lines are the same, except that runs in the place of a number are replaced by valid ones. -/
inductive Repairs (valid : List Char → Bool) : List Char → List Char → Prop
  | nil : Repairs valid [] []
  | keep (c : Char) {cs ds : List Char} (h : Repairs valid cs ds) : Repairs valid (c :: cs) (c :: ds)
  | field {opening : Char} {spaces run number cs ds : List Char} (ho : opensField opening = true)
    (hs : Text.IsSpacing spaces) (hr : IsRun run) (hm : ∀ c ∈ cs.head?, isNumberChar c = false)
    (hn : IsRun number) (hv : valid number = true) (h : Repairs valid cs ds) :
    Repairs valid (opening :: (spaces ++ (run ++ cs))) (opening :: (spaces ++ (number ++ ds)))

namespace Repairs

variable {valid : List Char → Bool} {cs ds rest : List Char}

theorem refl (valid : List Char → Bool) (cs : List Char) : Repairs valid cs cs := by
  induction cs with
  | nil => exact .nil
  | cons c cs ih => exact .keep c ih

theorem append_left (h : Repairs valid cs ds) (front : List Char) :
    Repairs valid (front ++ cs) (front ++ ds) := by
  induction front with
  | nil => exact h
  | cons c front ih => exact .keep c ih

theorem head?_eq (h : Repairs valid cs ds) : cs.head? = ds.head? := by
  cases h <;> rfl

/-- The line before a repair is one after it, if all runs are valid. -/
theorem symm (h : Repairs valid cs ds) : Repairs anyRun ds cs := by
  induction h with
  | nil => exact .nil
  | keep c _ ih => exact .keep c ih
  | field ho hs hr hm hn _ h ih => exact .field ho hs hn (h.head?_eq ▸ hm) hr rfl ih

/-! ### Runs, words and groups -/

theorem dropWhile {p : Char → Bool} (hp : ∀ c, opensField c = true → p c = false)
    (h : Repairs valid cs ds) : Repairs valid (cs.dropWhile p) (ds.dropWhile p) := by
  induction h with
  | nil => exact .nil
  | @keep c cs ds h ih =>
    rw [List.dropWhile_cons, List.dropWhile_cons]
    split
    · exact ih
    · exact .keep c h
  | field ho hs hr hm hn hv h =>
    rw [List.dropWhile_cons_of_neg (by simp [hp _ ho]), List.dropWhile_cons_of_neg (by simp [hp _ ho])]
    exact .field ho hs hr hm hn hv h

theorem after? {word : List Char} (hw : ∀ c ∈ word, opensField c = false) (h : Repairs valid cs ds)
    (hc : Text.after? word cs = some rest) :
    ∃ rest', Text.after? word ds = some rest' ∧ Repairs valid rest rest' := by
  rw [Text.after?_eq_some] at hc
  induction word generalizing cs ds with
  | nil =>
    cases hc
    exact ⟨ds, rfl, h⟩
  | cons w ws ih =>
    obtain ⟨hw, hws⟩ := List.forall_mem_cons.1 hw
    cases h with
    | nil => contradiction
    | @keep c cs ds h =>
      obtain ⟨rfl, hrest⟩ := List.cons.inj (hc.trans (List.cons_append ..))
      rw [Text.after?, if_pos rfl]
      exact ih hws h hrest
    | field ho =>
      cases (List.cons.inj hc).1
      rw [hw] at ho
      contradiction

/-- Nothing of a field is a bracket, a brace or a backslash. -/
theorem plain_of {p : Char → Bool} (hp : ∀ d ∈ [']', '}', '{', '\\'], p d = false) {c close : Char}
    (h : p c = true) (hclose : close = ']' ∨ close = '}') :
    c ≠ close ∧ c ≠ '\\' ∧ c ≠ '{' ∧ c ≠ '}' := by
  have hne (d : Char) (hd : d ∈ [']', '}', '{', '\\']) : c ≠ d := by
    rintro rfl
    rw [hp c hd] at h
    contradiction
  refine ⟨hne close ?_, hne _ (by simp), hne _ (by simp), hne _ (by simp)⟩
  rcases hclose with rfl | rfl <;> simp

theorem behind?_field {close : Char} (hclose : close = ']' ∨ close = '}') {spaces run : List Char}
    (hs : Text.IsSpacing spaces) (hr : IsRun run) (depth : Nat) (cs : List Char) :
    Braces.behind? close depth (spaces ++ (run ++ cs)) = Braces.behind? close depth cs := by
  rw [Braces.behind?_append_of_plain fun c hc => plain_of (by decide) (hs c hc) hclose,
    Braces.behind?_append_of_plain fun c hc =>
      plain_of (by decide) (hr.isNumberChar_of_mem c hc) hclose]

/-- The texts behind a closing bracket differ like the lines. -/
theorem behind? {close : Char} (hclose : close = ']' ∨ close = '}') {depth : Nat}
    (h : Repairs valid cs ds) (hc : Braces.behind? close depth cs = some rest) :
    ∃ rest', Braces.behind? close depth ds = some rest' ∧ Repairs valid rest rest' := by
  -- On the length: a backslash takes the next character with it, which may be the first of a field.
  induction hn : cs.length using Nat.strong_induction_on generalizing cs ds depth with
  | _ n ih =>
    subst hn
    have hshort {c : Char} {spaces run cs : List Char} :
        cs.length < (c :: (spaces ++ (run ++ cs))).length := by
      simp only [List.length_cons, List.length_append]
      omega
    cases h with
    | nil => contradiction
    | @field opening spaces run number cs ds ho hs hr hm hn hv h =>
      obtain ⟨ho, hb, hd⟩ := plain_of (by decide) ho hclose
      rw [Braces.behind?_cons hb, if_neg fun h => ho h.1, behind?_field hclose hs hr] at hc
      rw [Braces.behind?_cons hb, if_neg fun h => ho h.1, behind?_field hclose hs hn]
      exact ih cs.length hshort h hc rfl
    | @keep c cs ds h =>
      by_cases hb : c = '\\'
      · subst hb
        cases h with
        | nil => contradiction
        | @keep c cs ds h =>
          rw [Braces.behind?_escape] at hc ⊢
          exact ih cs.length (by simp only [List.length_cons]; omega) h hc rfl
        | @field opening spaces run number cs ds ho hs hr hm hn hv h =>
          rw [Braces.behind?_escape, behind?_field hclose hs hr] at hc
          rw [Braces.behind?_escape, behind?_field hclose hs hn]
          exact ih cs.length (hshort.trans (Nat.lt_succ_self _)) h hc rfl
      · rw [Braces.behind?_cons hb] at hc ⊢
        split
        · next hd =>
          rw [if_pos hd] at hc
          cases hc
          exact ⟨ds, rfl, h⟩
        · next hd =>
          rw [if_neg hd] at hc
          exact ih cs.length (Nat.lt_succ_self _) h hc rfl

theorem group? {opening closing : Char} (ho : opensField opening = false)
    (hclose : closing = ']' ∨ closing = '}') (h : Repairs valid cs ds)
    (hc : Command.group? opening closing cs = some rest) :
    ∃ rest', Command.group? opening closing ds = some rest' ∧ Repairs valid rest rest' := by
  obtain ⟨inside, ha, hb⟩ := Option.bind_eq_some_iff.1 hc
  obtain ⟨inside', ha', hi⟩ := h.after? (List.forall_mem_singleton.2 ho) ha
  obtain ⟨rest', hb', hr⟩ := hi.behind? hclose hb
  exact ⟨rest', Option.bind_eq_some_iff.2 ⟨inside', ha', hb'⟩, hr⟩

theorem after?_eq_none {word : List Char} (hw : ∀ c ∈ word, opensField c = false)
    (h : Repairs valid cs ds) (hc : Text.after? word cs = none) : Text.after? word ds = none := by
  by_contra hn
  obtain ⟨rest, hd⟩ := Option.ne_none_iff_exists'.1 hn
  obtain ⟨rest', hc', -⟩ := h.symm.after? hw hd
  rw [hc] at hc'
  contradiction

theorem group?_eq_none {opening closing : Char} (ho : opensField opening = false)
    (hclose : closing = ']' ∨ closing = '}') (h : Repairs valid cs ds)
    (hc : Command.group? opening closing cs = none) : Command.group? opening closing ds = none := by
  by_contra hn
  obtain ⟨rest, hd⟩ := Option.ne_none_iff_exists'.1 hn
  obtain ⟨rest', hc', -⟩ := h.symm.group? ho hclose hd
  rw [hc] at hc'
  contradiction

end Repairs

/-! ### Segments -/

namespace IsRun

variable {valid : List Char → Bool} {spaces run cs : List Char}

theorem isSpacing_of_isNumberChar {c : Char} (h : isNumberChar c = true) : Text.isSpacing c = false :=
  Text.isSpacing_eq_false (by decide) h

theorem dropWhile_isSpacing (hr : IsRun run) (hs : Text.IsSpacing spaces) (cs : List Char) :
    (spaces ++ (run ++ cs)).dropWhile Text.isSpacing = run ++ cs := by
  refine (Text.takeWhile_dropWhile_append hs fun c hc => ?_).2
  cases run with
  | nil => exact absurd rfl hr.ne_nil
  | cons d run =>
    obtain rfl := Option.some.inj hc
    exact isSpacing_of_isNumberChar (hr.isNumberChar_of_mem _ (List.mem_cons_self ..))

theorem takeWhile_isNumberChar (hr : IsRun run) (hm : ∀ c ∈ cs.head?, isNumberChar c = false) :
    (run ++ cs).takeWhile isNumberChar = run ∧ (run ++ cs).dropWhile isNumberChar = cs :=
  Text.takeWhile_dropWhile_append hr.isNumberChar_of_mem hm

/-- A field is read up to the end of its run. -/
theorem read_field (hr : IsRun run) (hs : Text.IsSpacing spaces)
    (hm : ∀ c ∈ cs.head?, isNumberChar c = false) (valid : List Char → Bool) (opening : Char) :
    (Segment.field opening).read valid (opening :: (spaces ++ (run ++ cs))) =
      if valid run then .ok cs else .error .number := by
  obtain ⟨ht, hd⟩ := hr.takeWhile_isNumberChar hm
  have ha : Text.after? [opening] (opening :: (spaces ++ (run ++ cs))) = some (spaces ++ (run ++ cs)) :=
    Text.after?_eq_some.2 rfl
  rw [Segment.read, ha]
  dsimp only
  rw [hr.dropWhile_isSpacing hs, ht, hd, if_neg]
  rw [List.isEmpty_iff]
  exact hr.ne_nil

end IsRun

namespace Segment

variable {valid : List Char → Bool} {s : Segment} {cs ds rest : List Char}

/-- Numbers stand in fields, and nothing else of the segment looks like one. -/
def isPlain : Segment → Bool
  | .word text | .maybe text => text.toList.all fun c => !opensField c
  | .field opening => opensField opening
  | _ => true

theorem exists_field_of_read {opening : Char} (h : (Segment.field opening).read valid cs = .ok rest) :
    ∃ spaces run, Text.IsSpacing spaces ∧ IsRun run ∧ (∀ c ∈ rest.head?, isNumberChar c = false) ∧
      cs = opening :: (spaces ++ (run ++ rest)) := by
  rw [Segment.read] at h
  cases ha : Text.after? [opening] cs with
  | none =>
    rw [ha] at h
    contradiction
  | some inside =>
    rw [ha] at h
    dsimp only at h
    split at h
    · contradiction
    · next hn =>
      split at h
      · cases h
        refine ⟨inside.takeWhile Text.isSpacing,
          (inside.dropWhile Text.isSpacing).takeWhile isNumberChar, ?_, ⟨?_, ?_⟩, ?_, ?_⟩
        · exact fun _ hc => List.mem_takeWhile_imp hc
        · exact fun hr => hn (List.isEmpty_iff.2 hr)
        · exact fun _ hc => List.mem_takeWhile_imp hc
        · exact fun _ hc => Text.head?_dropWhile _ hc
        · rw [List.takeWhile_append_dropWhile, List.takeWhile_append_dropWhile]
          exact Text.after?_eq_some.1 ha
      · contradiction

theorem read_word_iff {text : String} :
    (Segment.word text).read valid cs = .ok rest ↔ Text.after? text.toList cs = some rest := by
  rw [Segment.read]
  cases Text.after? text.toList cs <;> simp

theorem read_braces_iff :
    Segment.braces.read valid cs = .ok rest ↔ group? '{' '}' cs = some rest := by
  rw [Segment.read]
  cases group? '{' '}' cs <;> simp

theorem forall_opensField {text : String} (h : (Segment.word text).isPlain = true) :
    ∀ c ∈ text.toList, opensField c = false := by
  simpa [isPlain] using h

/-- A line is like a segment before and after a repair, if all runs may be numbers. -/
theorem read_of_repairs (hs : s.isPlain = true) (h : Repairs valid cs ds)
    (hc : s.read anyRun cs = .ok rest) :
    ∃ rest', s.read anyRun ds = .ok rest' ∧ Repairs valid rest rest' := by
  cases s with
  | word text =>
    obtain ⟨rest', hd, hr⟩ := h.after? (forall_opensField hs) (read_word_iff.1 hc)
    exact ⟨rest', read_word_iff.2 hd, hr⟩
  | gap =>
    cases hc
    exact ⟨_, rfl, h.dropWhile isSpacing_of_opensField⟩
  | options =>
    cases hc
    refine ⟨_, rfl, ?_⟩
    cases hg : group? '[' ']' cs with
    | none =>
      rw [h.group?_eq_none rfl (.inl rfl) hg]
      exact h
    | some rest =>
      obtain ⟨rest', hd, hr⟩ := h.group? rfl (.inl rfl) hg
      rw [hd]
      exact hr
  | field opening =>
    obtain ⟨spaces, run, hspaces, hrun, hm, hcs⟩ := exists_field_of_read hc
    cases h with
    | nil => contradiction
    | @keep c cs ds h =>
      obtain ⟨rfl, rfl⟩ := List.cons.inj hcs
      -- The number is kept, so the repaired places are all behind it.
      have hplain : ∀ d ∈ spaces ++ run, opensField d = false := by
        intro d hd
        by_contra ho
        rw [Bool.not_eq_false] at ho
        rcases List.mem_append.1 hd with hd | hd
        · exact absurd (hspaces d hd) (by simp [isSpacing_of_opensField d ho])
        · exact absurd (hrun.isNumberChar_of_mem d hd) (by simp [isNumberChar_of_opensField d ho])
      obtain ⟨rest', hd, hr⟩ := h.after? hplain (Text.after?_eq_some.2 (List.append_assoc ..).symm)
      rw [Text.after?_eq_some.1 hd, List.append_assoc]
      exact ⟨rest', hrun.read_field hspaces (hr.head?_eq ▸ hm) anyRun c, hr⟩
    | field _ hs hr hm hn _ h =>
      cases (List.cons.inj hcs).1
      rw [hr.read_field hs hm] at hc
      cases hc
      exact ⟨_, hn.read_field hs (h.head?_eq ▸ hm) anyRun _, h⟩
  | braces =>
    obtain ⟨rest', hd, hr⟩ := h.group? rfl (.inr rfl) (read_braces_iff.1 hc)
    exact ⟨rest', read_braces_iff.2 hd, hr⟩
  | maybe text =>
    rw [Segment.read] at hc ⊢
    cases ha : Text.after? text.toList cs with
    | none =>
      rw [ha] at hc
      cases hc
      rw [h.after?_eq_none (forall_opensField hs) ha]
      exact ⟨ds, rfl, h⟩
    | some inside =>
      rw [ha] at hc
      cases hc
      obtain ⟨inside', hd, hr⟩ := h.after? (forall_opensField hs) ha
      rw [hd]
      exact ⟨_, rfl, hr.dropWhile isSpacing_of_opensField⟩
  | stop =>
    cases h with
    | nil =>
      cases hc
      exact ⟨[], rfl, .nil⟩
    | keep => contradiction
    | field => contradiction

theorem dropWhile_append_of_repairs (h : Repairs valid (cs.dropWhile Text.isSpacing) ds) :
    (cs.takeWhile Text.isSpacing ++ ds).dropWhile Text.isSpacing = ds := by
  rw [List.dropWhile_append_of_pos fun _ hc => List.mem_takeWhile_imp hc]
  cases ds with
  | nil => rfl
  | cons d ds =>
    have hd : Text.isSpacing d = false := Text.head?_dropWhile cs (h.head?_eq ▸ rfl)
    rw [List.dropWhile_cons_of_neg (by simp [hd])]

theorem exists_append_of_group? {opening closing : Char} (h : group? opening closing cs = some rest) :
    ∃ taken, cs = taken ++ rest ∧ ∀ after, group? opening closing (taken ++ after) = some after := by
  obtain ⟨inside, ha, hb⟩ := Option.bind_eq_some_iff.1 h
  obtain ⟨taken, rfl, ht⟩ := Braces.exists_append_of_behind? hb
  refine ⟨opening :: taken, (Text.after?_eq_some.1 ha :), fun after => ?_⟩
  rw [List.cons_append, group?_cons, ht]

/-- A segment other than a field ends at the same place when the text behind it is repaired. -/
theorem exists_append_of_read (hs : s.isPlain = true) (hf : ∀ opening, s ≠ .field opening)
    (hc : s.read anyRun cs = .ok rest) : ∃ taken, cs = taken ++ rest ∧
      ∀ ds, Repairs valid rest ds → s.read isNumber (taken ++ ds) = .ok ds := by
  cases s with
  | word text =>
    refine ⟨text.toList, Text.after?_eq_some.1 (read_word_iff.1 hc), fun ds _ => ?_⟩
    exact read_word_iff.2 (Text.after?_eq_some.2 rfl)
  | gap =>
    cases hc
    refine ⟨_, List.takeWhile_append_dropWhile.symm, fun ds h => ?_⟩
    rw [read, dropWhile_append_of_repairs h]
  | options =>
    cases hc
    cases hg : group? '[' ']' cs with
    | none =>
      refine ⟨[], rfl, fun ds h => ?_⟩
      rw [List.nil_append, read, h.group?_eq_none rfl (.inl rfl) hg]
      rfl
    | some rest =>
      obtain ⟨taken, hcs, ht⟩ := exists_append_of_group? hg
      refine ⟨taken, hcs, fun ds _ => ?_⟩
      rw [read, ht]
      rfl
  | field opening => exact absurd rfl (hf opening)
  | braces =>
    obtain ⟨taken, hcs, ht⟩ := exists_append_of_group? (read_braces_iff.1 hc)
    exact ⟨taken, hcs, fun ds _ => read_braces_iff.2 (ht ds)⟩
  | maybe text =>
    rw [read] at hc
    cases ha : Text.after? text.toList cs with
    | none =>
      rw [ha] at hc
      cases hc
      refine ⟨[], rfl, fun ds h => ?_⟩
      rw [List.nil_append, read, h.after?_eq_none (forall_opensField hs) ha]
    | some inside =>
      rw [ha] at hc
      cases hc
      refine ⟨text.toList ++ inside.takeWhile Text.isSpacing, ?_, fun ds h => ?_⟩
      · rw [List.append_assoc, List.takeWhile_append_dropWhile, ← Text.after?_eq_some.1 ha]
      · rw [read, List.append_assoc, Text.after?_eq_some.2 rfl]
        exact congrArg Except.ok (dropWhile_append_of_repairs h)
  | stop =>
    cases cs with
    | cons c cs => contradiction
    | nil =>
      cases hc
      refine ⟨[], rfl, fun ds h => ?_⟩
      cases h
      rfl

theorem read_isNumber (h : s.read anyRun cs = .ok rest) :
    s.read isNumber cs = .ok rest ∨ s.read isNumber cs = .error .number := by
  cases s with
  | field opening =>
    obtain ⟨spaces, run, hs, hr, hm, rfl⟩ := exists_field_of_read h
    rw [hr.read_field hs hm]
    cases isNumber run with
    | true => exact .inl rfl
    | false => exact .inr rfl
  | _ => exact .inl h

theorem read_anyRun (h : s.read isNumber cs = .ok rest) : s.read anyRun cs = .ok rest := by
  cases s with
  | field opening =>
    obtain ⟨spaces, run, hs, hr, hm, rfl⟩ := exists_field_of_read h
    exact hr.read_field hs hm anyRun opening
  | _ => exact h

end Segment

end Command

end Sketch
