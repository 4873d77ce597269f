import Mathlib.Data.List.DropRight
import Sketch.Text.Blank
import Sketch.Text.Lines

/-!
Lines and blanks of texts that are put together. A line feed separates the lines before it from
those after it, and blanks at the ends of a text do not change what is left when it is trimmed.
-/

namespace Sketch.Text

variable {c : Char} {cs ds bs : List Char}

/-- What is said of the characters of a text is checked on these, not on all that there are. -/
instance decidableForallMem (P : Char → Prop) [DecidablePred P] (cs : List Char) :
    Decidable (∀ c ∈ cs, P c) :=
  List.decidableBAll P cs

/-! ### Lines -/

theorem lines_ne_nil (h : cs ≠ []) : lines cs ≠ [] := by
  intro hl
  apply h
  rw [← flatten_lines cs, hl, List.flatten_nil]

theorem lines_append_break (cs ds : List Char) :
    lines (cs ++ '\n' :: ds) = lines (cs ++ ['\n']) ++ lines ds := by
  induction cs with
  | nil => rfl
  | cons c cs ih =>
    rw [List.cons_append, lines_cons, ih, List.cons_append, lines_cons]
    unfold consLine
    split
    · rfl
    · cases hl : lines (cs ++ ['\n']) with
      | nil => exact absurd hl (lines_ne_nil (by simp))
      | cons l ls => rfl

/-- Characters without a line feed stand before the first line of the text that follows. -/
theorem lines_append {l : List Char} {ls : List (List Char)} (h : '\n' ∉ cs)
    (hd : lines ds = l :: ls) : lines (cs ++ ds) = (cs ++ l) :: ls := by
  induction cs with
  | nil => exact hd
  | cons c cs ih =>
    have hc : c ≠ '\n' := by
      rintro rfl
      exact h (List.mem_cons_self ..)
    rw [List.cons_append, lines_cons, ih fun hm => h (List.mem_cons_of_mem _ hm), consLine,
      if_neg hc, List.cons_append]

theorem lines_single (h : '\n' ∉ cs) : lines (cs ++ ['\n']) = [cs ++ ['\n']] :=
  lines_append h rfl

theorem lines_cons_of_ne (h : c ≠ '\n') (cs : List Char) :
    lines (c :: cs) = (c :: (lines cs).headD []) :: (lines cs).tail := by
  rw [lines_cons]
  unfold consLine
  rw [if_neg h]
  cases lines cs <;> rfl

theorem headD_lines_isPrefix (cs : List Char) : (lines cs).headD [] <+: cs := by
  conv_rhs => rw [← flatten_lines cs]
  cases lines cs with
  | nil => exact List.nil_prefix
  | cons l ls => exact List.prefix_append ..

theorem prefix_headD_lines_iff (h : '\n' ∉ word) (cs : List Char) :
    word <+: (lines cs).headD [] ↔ word <+: cs := by
  refine ⟨fun hp => hp.trans (headD_lines_isPrefix cs), fun hp => ?_⟩
  induction word generalizing cs with
  | nil => exact List.nil_prefix
  | cons w ws ih =>
    obtain ⟨rest, rfl⟩ := hp
    rw [List.mem_cons, not_or] at h
    rw [List.cons_append, lines_cons_of_ne (Ne.symm h.1), List.headD_cons, List.cons_prefix_cons]
    exact ⟨rfl, ih h.2 _ (List.prefix_append ..)⟩

/-- The text is empty, or its last line is ended. -/
def EndsLine (cs : List Char) : Prop := cs = [] ∨ cs.getLast? = some '\n'

namespace EndsLine

variable {α : Type} {f : α → List Char}

theorem concat (cs : List Char) : EndsLine (cs ++ ['\n']) := .inr List.getLast?_concat

theorem append (hc : EndsLine cs) (hd : EndsLine ds) : EndsLine (cs ++ ds) := by
  rcases hd with rfl | hd
  · rwa [List.append_nil]
  · exact .inr (by rw [List.getLast?_append, hd, Option.some_or])

theorem flatMap (h : ∀ a, EndsLine (f a)) (as : List α) : EndsLine (as.flatMap f) := by
  induction as with
  | nil => exact .inl rfl
  | cons a as ih => exact (h a).append ih

theorem lines_append (h : EndsLine cs) (ds : List Char) : lines (cs ++ ds) = lines cs ++ lines ds := by
  rcases h with rfl | h
  · rfl
  · obtain ⟨front, rfl⟩ := List.getLast?_eq_some_iff.1 h
    rw [List.append_assoc, List.singleton_append, lines_append_break]

theorem lines_flatMap (h : ∀ a, EndsLine (f a)) (as : List α) :
    lines (as.flatMap f) = as.flatMap fun a => lines (f a) := by
  induction as with
  | nil => rfl
  | cons a as ih => rw [List.flatMap_cons, (h a).lines_append, ih, List.flatMap_cons]

end EndsLine

/-- Only the last character of a line can be a line feed. -/
theorem break_not_mem_of_mem_lines {l : List Char} (h : l ∈ lines cs) (hl : l = ds ++ c :: bs) :
    '\n' ∉ ds := by
  induction cs generalizing l ds with
  | nil => contradiction
  | cons d cs ih =>
    rw [lines_cons] at h
    unfold consLine at h
    split at h
    · rcases List.mem_cons.1 h with rfl | h
      · cases ds with
        | nil => exact List.not_mem_nil
        | cons => simp at hl
      · exact ih h hl
    · next hd =>
      split at h
      · cases List.mem_singleton.1 h
        cases ds with
        | nil => exact List.not_mem_nil
        | cons => simp at hl
      · next k ks hk =>
        rcases List.mem_cons.1 h with rfl | h
        · cases ds with
          | nil => exact List.not_mem_nil
          | cons e ds =>
            obtain ⟨rfl, he⟩ := List.cons.inj hl
            rw [List.mem_cons, not_or]
            exact ⟨Ne.symm hd, ih (hk ▸ List.mem_cons_self ..) he⟩
        · exact ih (hk ▸ List.mem_cons_of_mem _ h) hl

/-- Lines, each with the place where it starts if the first one starts at the offset. -/
def located (offset : Nat) : List (List Char) → List (Nat × List Char)
  | [] => []
  | l :: ls => (offset, l) :: located (offset + size l) ls

theorem exists_of_mem_located {offset : Nat} {ls : List (List Char)} {p : Nat × List Char}
    (h : p ∈ located offset ls) :
    ∃ before after, ls = before ++ p.2 :: after ∧ p.1 = offset + size before.flatten := by
  induction ls generalizing offset with
  | nil => contradiction
  | cons l ls ih =>
    rcases List.mem_cons.1 h with rfl | h
    · exact ⟨[], ls, rfl, rfl⟩
    · obtain ⟨before, after, hls, hp⟩ := ih h
      refine ⟨l :: before, after, by rw [hls, List.cons_append], ?_⟩
      rw [hp, List.flatten_cons, size_append, Nat.add_assoc]

/-- A line ends where the next one starts, or before that. -/
theorem pairwise_located (offset : Nat) (ls : List (List Char)) :
    (located offset ls).Pairwise fun p q => p.1 + size p.2 ≤ q.1 := by
  induction ls generalizing offset with
  | nil => exact .nil
  | cons l ls ih =>
    refine List.pairwise_cons.2 ⟨fun q hq => ?_, ih _⟩
    obtain ⟨before, after, -, hq⟩ := exists_of_mem_located hq
    rw [hq]
    exact Nat.le_add_right ..

/-! ### Splitting -/

theorem splitFirst?_append {mark : Char} (h : mark ∉ cs) (rest : List Char) :
    splitFirst? mark (cs ++ mark :: rest) = some (cs, rest) := by
  induction cs with
  | nil => simp [splitFirst?]
  | cons c cs ih =>
    have hc : c ≠ mark := by
      rintro rfl
      exact h (List.mem_cons_self ..)
    rw [List.cons_append, splitFirst?, if_neg hc, ih fun hm => h (List.mem_cons_of_mem _ hm)]
    rfl

/-- The marks in a text are its first character, if that is one, and those behind it. -/
theorem forall_mark_cons {mark : Char} {P : List Char → Prop} :
    (∀ front back, c :: cs = front ++ mark :: back → P front) ↔
      (c = mark → P []) ∧ ∀ front back, cs = front ++ mark :: back → P (c :: front) := by
  constructor
  · refine fun h => ⟨fun hc => h [] cs (by rw [hc]; rfl), fun front back hcs => ?_⟩
    exact h (c :: front) back (by rw [hcs]; rfl)
  · rintro ⟨hc, hcs⟩ front back h
    cases front with
    | nil => exact hc (List.cons.inj h).1
    | cons d front =>
      obtain ⟨rfl, hrest⟩ := List.cons.inj h
      exact hcs front back hrest

/-- A word does not reach into a text whose first character is not in the word but at its start. -/
theorem prefix_append_iff {word : List Char} (hd : ∀ d, ds.head? = some d → d ∉ word.tail) (hc : cs ≠ []) :
    word <+: cs ++ ds ↔ word <+: cs := by
  refine ⟨fun h => ?_, fun h => h.trans (List.prefix_append ..)⟩
  rcases List.prefix_or_prefix_of_prefix h (List.prefix_append cs ds) with h' | ⟨rest, rfl⟩
  · exact h'
  · rw [List.prefix_append_right_inj] at h
    obtain ⟨b, cs, rfl⟩ := List.exists_cons_of_ne_nil hc
    cases rest with
    | nil => exact (List.append_nil (b :: cs)).symm ▸ List.prefix_refl _
    | cons r rest =>
      obtain ⟨ds, rfl⟩ := h
      exact absurd (by simp) (hd r rfl)

theorem splitLast?_eq_none {word : List Char} (h : cs.length < word.length) :
    splitLast? word cs = none := by
  induction cs with
  | nil =>
    rw [splitLast?, if_neg]
    rintro hw
    rw [List.isEmpty_iff.1 hw] at h
    contradiction
  | cons c cs ih =>
    rw [splitLast?, ih (Nat.lt_of_succ_lt h)]
    refine if_neg fun hp => ?_
    exact Nat.not_lt_of_le (List.isPrefixOf_iff_prefix.1 hp).length_le h

/-- The last place of a word that ends the text is at its end, wherever else the word stands. -/
theorem splitLast?_append {word : List Char} (hw : word ≠ []) (cs : List Char) :
    splitLast? word (cs ++ word) = some (cs, word) := by
  induction cs with
  | nil =>
    obtain ⟨w, ws, rfl⟩ := List.exists_cons_of_ne_nil hw
    rw [List.nil_append, splitLast?, splitLast?_eq_none (Nat.lt_succ_self _)]
    exact if_pos (List.isPrefixOf_iff_prefix.2 (List.prefix_refl _))
  | cons c cs ih => rw [List.cons_append, splitLast?, ih]

theorem not_infix_of_splitLast? {word : List Char} (hw : word ≠ []) (h : splitLast? word cs = none) :
    ¬word <:+: cs := by
  induction cs with
  | nil => exact fun hi => hw (List.infix_nil.1 hi)
  | cons c cs ih =>
    unfold splitLast? at h
    split at h
    · contradiction
    · next hn =>
      split at h
      · contradiction
      · next hp =>
        rw [List.infix_cons_iff]
        rintro (hi | hi)
        · exact hp (List.isPrefixOf_iff_prefix.2 hi)
        · exact ih hn hi

/-- The last place of a word: it stands there, and nowhere behind. -/
theorem prefix_of_splitLast? {word before rest : List Char} (hw : word ≠ [])
    (h : splitLast? word cs = some (before, rest)) : word <+: rest ∧ ¬word <:+: rest.tail := by
  induction cs generalizing before with
  | nil =>
    rw [splitLast?, if_neg (by simpa using hw)] at h
    contradiction
  | cons c cs ih =>
    unfold splitLast? at h
    split at h
    · next hs =>
      cases h
      exact ih hs
    · next hn =>
      split at h
      · next hp =>
        cases h
        exact ⟨List.isPrefixOf_iff_prefix.1 hp, not_infix_of_splitLast? hw hn⟩
      · contradiction

theorem before?_append (word cs : List Char) : before? word (cs ++ word) = some cs := by
  rw [before?, List.reverse_append, after?_eq_some.2 rfl, Option.map_some,
    List.reverse_reverse]

theorem eq_append_of_before? {word cs before : List Char} (h : before? word cs = some before) :
    cs = before ++ word := by
  obtain ⟨rest, hrest, rfl⟩ := Option.map_eq_some_iff.1 h
  have hcs := congrArg List.reverse (after?_eq_some.1 hrest)
  rwa [List.reverse_reverse, List.reverse_append, List.reverse_reverse] at hcs

/-! ### Blanks -/

/-- A text of blanks only. -/
def IsBlank (cs : List Char) : Prop := ∀ c ∈ cs, isBlank c = true

/-- A text that may stand between the parts of a command. -/
def IsSpacing (cs : List Char) : Prop := ∀ c ∈ cs, isSpacing c = true

theorem isSpacing_iff : isSpacing c = true ↔ c ∈ [' ', '\t', '\r', '\n'] := by
  simp [isSpacing, or_assoc]

theorem isBlank_of_isSpacing (h : isSpacing c = true) : isBlank c = true :=
  (by decide : ∀ c ∈ [' ', '\t', '\r', '\n'], isBlank c = true) c (isSpacing_iff.1 h)

/-- A class without any of the spacing characters is apart from them. -/
theorem isSpacing_eq_false {p : Char → Bool} (hp : ∀ c ∈ [' ', '\t', '\r', '\n'], p c = false)
    (h : p c = true) : isSpacing c = false := by
  by_contra hs
  rw [Bool.not_eq_false] at hs
  rw [hp c (isSpacing_iff.1 hs)] at h
  contradiction

section Runs

variable {p : Char → Bool}

/-- What ends the longest run of a class is not in the class. -/
theorem head?_dropWhile (cs : List Char) (hc : c ∈ (cs.dropWhile p).head?) : p c = false := by
  have hn := List.head?_dropWhile_not p cs
  rw [Option.mem_def.1 hc] at hn
  exact hn

theorem takeWhile_dropWhile_append (hc : ∀ c ∈ cs, p c = true) (hd : ∀ d ∈ ds.head?, p d = false) :
    (cs ++ ds).takeWhile p = cs ∧ (cs ++ ds).dropWhile p = ds := by
  rw [List.takeWhile_append_of_pos hc, List.dropWhile_append_of_pos hc]
  cases ds with
  | nil => simp
  | cons d ds => simp [hd d rfl]

end Runs

theorem isBlank_takeWhile (cs : List Char) : IsBlank (cs.takeWhile isBlank) :=
  fun _ hc => List.mem_takeWhile_imp hc

theorem trimStart_append (h : IsBlank bs) (cs : List Char) : trimStart (bs ++ cs) = trimStart cs :=
  List.dropWhile_append_of_pos h

theorem trimStart_cons (h : isBlank c = false) (cs : List Char) : trimStart (c :: cs) = c :: cs := by
  rw [trimStart, List.dropWhile_cons_of_neg]
  simp [h]

theorem trimStart_eq_nil (h : IsBlank bs) : trimStart bs = [] :=
  List.dropWhile_eq_nil_iff.2 h

theorem trimEnd_append (cs : List Char) (h : IsBlank bs) : trimEnd (cs ++ bs) = trimEnd cs := by
  rw [trimEnd, List.reverse_append, List.dropWhile_append_of_pos, trimEnd]
  intro c hc
  exact h c (List.mem_reverse.1 hc)

theorem trimEnd_concat (cs : List Char) (h : isBlank c = false) : trimEnd (cs ++ [c]) = cs ++ [c] := by
  rw [trimEnd, List.reverse_append, List.reverse_singleton, List.singleton_append,
    List.dropWhile_cons_of_neg (by simp [h]), List.reverse_cons, List.reverse_reverse]

theorem trimEnd_append_of_getLast? (hc : cs.getLast? = some c) (h : isBlank c = false)
    (ds : List Char) : trimEnd (cs ++ ds) = cs ++ trimEnd ds := by
  obtain ⟨bs, rfl⟩ := List.getLast?_eq_some_iff.1 hc
  have hd : (c :: bs.reverse).dropWhile isBlank = c :: bs.reverse :=
    List.dropWhile_cons_of_neg (by simp [h])
  rw [trimEnd, trimEnd, List.reverse_append, List.dropWhile_append]
  split
  · next he =>
    rw [List.isEmpty_iff.1 he, List.reverse_append, List.reverse_singleton, List.singleton_append, hd]
    simp
  · simp

theorem exists_trimStart_eq (cs : List Char) : ∃ bs, IsBlank bs ∧ cs = bs ++ trimStart cs :=
  ⟨cs.takeWhile isBlank, isBlank_takeWhile cs, List.takeWhile_append_dropWhile.symm⟩

theorem exists_trimEnd_eq (cs : List Char) : ∃ bs, IsBlank bs ∧ cs = trimEnd cs ++ bs := by
  refine ⟨(cs.reverse.takeWhile isBlank).reverse, ?_, ?_⟩
  · intro c hc
    exact isBlank_takeWhile _ c (List.mem_reverse.1 hc)
  · rw [trimEnd, ← List.reverse_append, List.takeWhile_append_dropWhile, List.reverse_reverse]

theorem trim_append_left (h : IsBlank bs) (cs : List Char) : trim (bs ++ cs) = trim cs := by
  rw [trim, trimStart_append h, trim]

theorem trim_append_right (cs : List Char) (h : IsBlank bs) : trim (cs ++ bs) = trim cs := by
  unfold trim
  by_cases hc : trimStart cs = []
  · obtain ⟨ds, hd, he⟩ := exists_trimStart_eq cs
    rw [hc, List.append_nil] at he
    rw [hc, he, trimStart_append hd, trimStart_eq_nil h]
  · have ht : trimStart (cs ++ bs) = trimStart cs ++ bs := by
      rw [trimStart, List.dropWhile_append, if_neg]
      · rfl
      · simpa [trimStart] using hc
    rw [ht, trimEnd_append _ h]

theorem exists_trim_eq (cs : List Char) :
    ∃ before after, IsBlank before ∧ IsBlank after ∧ cs = before ++ (trim cs ++ after) := by
  obtain ⟨before, hb, he⟩ := exists_trimStart_eq cs
  obtain ⟨after, ha, ht⟩ := exists_trimEnd_eq (trimStart cs)
  exact ⟨before, after, hb, ha, by rw [trim, ← ht, ← he]⟩

@[simp] theorem trim_trim (cs : List Char) : trim (trim cs) = trim cs := by
  obtain ⟨before, after, hb, ha, he⟩ := exists_trim_eq cs
  conv_rhs => rw [he, trim_append_left hb, trim_append_right _ ha]

theorem trim_cons_concat {d : Char} (hc : isBlank c = false) (cs : List Char)
    (hd : isBlank d = false) : trim (c :: cs ++ [d]) = c :: cs ++ [d] := by
  rw [trim, List.cons_append, trimStart_cons hc, ← List.cons_append, trimEnd_concat _ hd]

theorem isBlank_of_trim_eq (h : trim (c :: cs) = c :: cs) : isBlank c = false := by
  by_contra hc
  have hb : IsBlank [c] := by
    intro d hd
    cases List.mem_singleton.1 hd
    simpa using hc
  obtain ⟨before, after, -, -, he⟩ := exists_trim_eq cs
  rw [← List.singleton_append, trim_append_left hb] at h
  rw [h] at he
  have hl := congrArg List.length he
  simp only [List.length_append, List.length_cons] at hl
  omega

theorem isBlank_of_trim_concat_eq (h : trim (cs ++ [c]) = cs ++ [c]) : isBlank c = false := by
  by_contra hc
  have hb : IsBlank [c] := by
    intro d hd
    cases List.mem_singleton.1 hd
    simpa using hc
  obtain ⟨before, after, -, -, he⟩ := exists_trim_eq cs
  rw [trim_append_right _ hb] at h
  rw [h] at he
  have hl := congrArg List.length he
  simp only [List.length_append, List.length_cons] at hl
  omega

theorem trim_append (hc : trim cs = cs) (hd : trim ds = ds) (hcn : cs ≠ []) (hdn : ds ≠ []) :
    trim (cs ++ ds) = cs ++ ds := by
  obtain ⟨d, d', rfl⟩ := ds.eq_nil_or_concat.resolve_left hdn
  cases cs with
  | nil => contradiction
  | cons c cs =>
    rw [List.concat_eq_append] at hd ⊢
    have := trim_cons_concat (isBlank_of_trim_eq hc) (cs ++ d) (isBlank_of_trim_concat_eq hd)
    rwa [List.cons_append, List.append_assoc] at this

theorem trim_of_forall (h : ∀ c ∈ cs, isBlank c = false) : trim cs = cs := by
  obtain ⟨before, after, hb, ha, he⟩ := exists_trim_eq cs
  have hn (bs : List Char) (hm : ∀ c ∈ bs, c ∈ cs) (hb : IsBlank bs) : bs = [] := by
    refine List.eq_nil_iff_forall_not_mem.2 fun c hc => ?_
    have := h c (hm c hc)
    rw [hb c hc] at this
    contradiction
  have h₁ := hn before (fun c hc => he ▸ List.mem_append_left _ hc) hb
  have h₂ := hn after
    (fun c hc => he ▸ List.mem_append_right _ (List.mem_append_right _ hc)) ha
  rw [h₁, h₂, List.nil_append, List.append_nil] at he
  exact he.symm

theorem infix_append_left {word : List Char} (hn : word ≠ []) (hw : ∀ c ∈ word, isBlank c = false)
    (hb : IsBlank bs) (h : word <:+: bs ++ cs) : word <:+: cs := by
  induction bs with
  | nil => exact h
  | cons b bs ih =>
    rcases List.infix_cons_iff.1 h with hp | hi
    · obtain ⟨c, word, rfl⟩ := List.exists_cons_of_ne_nil hn
      obtain ⟨rfl, -⟩ := List.cons_prefix_cons.1 hp
      have hc := hw c (List.mem_cons_self ..)
      rw [hb c (List.mem_cons_self ..)] at hc
      contradiction
    · exact ih (fun c hc => hb c (List.mem_cons_of_mem _ hc)) hi

/-- A word without blanks is not in the blanks around a text. -/
theorem infix_trim_iff {word : List Char} (hn : word ≠ []) (hw : ∀ c ∈ word, isBlank c = false) :
    word <:+: trim cs ↔ word <:+: cs := by
  obtain ⟨before, after, hb, ha, he⟩ := exists_trim_eq cs
  constructor
  · intro h
    rw [he]
    exact h.trans ⟨before, after, List.append_assoc ..⟩
  · intro h
    rw [he] at h
    have hi := infix_append_left hn hw hb h
    rw [← List.reverse_infix, List.reverse_append] at hi
    have hr : ∀ c ∈ word.reverse, isBlank c = false := fun c hc => hw c (List.mem_reverse.1 hc)
    have hra : IsBlank after.reverse := fun c hc => ha c (List.mem_reverse.1 hc)
    exact List.reverse_infix.1 (infix_append_left (List.reverse_ne_nil_iff.2 hn) hr hra hi)

end Sketch.Text
