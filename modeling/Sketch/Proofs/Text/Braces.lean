import Sketch.Proofs.Text.Lines
import Sketch.Text.Braces

/-!
What stands between braces. A balanced text closes every brace that it opens, and so is found again
between two braces, and only such texts are found there. An escaped text is balanced, on one line
and without a comment, whatever the text was.
-/

namespace Sketch.Braces

/-- The characters that no backslash escapes, without the backslashes. -/
def unescaped : List Char → List Char
  | [] => []
  | '\\' :: [] => []
  | '\\' :: _ :: cs => unescaped cs
  | c :: cs => c :: unescaped cs

/-- Whether the text ends with a backslash that has nothing to escape. -/
def endsEscaped : List Char → Bool
  | [] => false
  | '\\' :: [] => true
  | '\\' :: _ :: cs => endsEscaped cs
  | _ :: cs => endsEscaped cs

/-- From within `depth` braces, a text that closes just these and those that it opens itself, and
in which every backslash has a character to escape. -/
inductive Balanced : (depth : Nat) → List Char → Prop
  | nil : Balanced 0 []
  | escape {depth : Nat} {cs : List Char} (c : Char) (h : Balanced depth cs) :
    Balanced depth ('\\' :: c :: cs)
  | opening {depth : Nat} {cs : List Char} (h : Balanced (depth + 1) cs) : Balanced depth ('{' :: cs)
  | closing {depth : Nat} {cs : List Char} (h : Balanced depth cs) : Balanced (depth + 1) ('}' :: cs)
  | cons {depth : Nat} {c : Char} {cs : List Char} (hb : c ≠ '\\') (ho : c ≠ '{') (hc : c ≠ '}')
    (h : Balanced depth cs) : Balanced depth (c :: cs)

variable {depth : Nat} {c : Char} {cs ds inner rest : List Char}

@[simp] theorem unescaped_escape (c : Char) (cs : List Char) :
    unescaped ('\\' :: c :: cs) = unescaped cs := by
  rw [unescaped]

theorem unescaped_cons (h : c ≠ '\\') (cs : List Char) :
    unescaped (c :: cs) = c :: unescaped cs := by
  rw [unescaped]
  · intro h'
    exact absurd h' h
  · intro d ds h'
    exact absurd h' h

@[simp] theorem endsEscaped_escape (c : Char) (cs : List Char) :
    endsEscaped ('\\' :: c :: cs) = endsEscaped cs := by
  rw [endsEscaped]

theorem endsEscaped_cons (h : c ≠ '\\') (cs : List Char) : endsEscaped (c :: cs) = endsEscaped cs := by
  rw [endsEscaped]
  · intro h'
    exact absurd h' h
  · intro d ds h'
    exact absurd h' h

/-- Induction along the escapes of a text. -/
@[elab_as_elim] theorem escapeInduction {motive : List Char → Prop} (nil : motive [])
    (lone : motive ['\\']) (escape : ∀ c cs, motive cs → motive ('\\' :: c :: cs))
    (cons : ∀ c cs, c ≠ '\\' → motive cs → motive (c :: cs)) (cs : List Char) : motive cs := by
  fun_induction endsEscaped cs with
  | case1 => exact nil
  | case2 => exact lone
  | case3 c cs ih => exact escape c cs ih
  | case4 c cs hn he ih =>
    apply cons _ _ _ ih
    rintro rfl
    cases cs with
    | nil => exact hn rfl rfl
    | cons d ds => exact he d ds rfl rfl

theorem unescaped_append (h : endsEscaped cs = false) (ds : List Char) :
    unescaped (cs ++ ds) = unescaped cs ++ unescaped ds := by
  induction cs using escapeInduction with
  | nil => rfl
  | lone => contradiction
  | escape c cs ih =>
    rw [endsEscaped_escape] at h
    simp [ih h]
  | cons c cs hb ih =>
    rw [endsEscaped_cons hb] at h
    rw [List.cons_append, unescaped_cons hb, unescaped_cons hb, ih h, List.cons_append]

theorem endsEscaped_of_not_mem (h : '\\' ∉ cs) : endsEscaped cs = false := by
  induction cs with
  | nil => rfl
  | cons c cs ih =>
    rw [List.mem_cons, not_or] at h
    rw [endsEscaped_cons (Ne.symm h.1), ih h.2]

theorem endsEscaped_append (h : endsEscaped cs = false) (ds : List Char) :
    endsEscaped (cs ++ ds) = endsEscaped ds := by
  induction cs using escapeInduction with
  | nil => rfl
  | lone => contradiction
  | escape c cs ih =>
    rw [endsEscaped_escape] at h
    simp [ih h]
  | cons c cs hb ih =>
    rw [endsEscaped_cons hb] at h
    rw [List.cons_append, endsEscaped_cons hb, ih h]

/-! ### Balanced texts -/

namespace Balanced

theorem endsEscaped_eq (h : Balanced depth cs) : endsEscaped cs = false := by
  induction h with
  | nil => rfl
  | escape c _ ih => rw [endsEscaped_escape, ih]
  | opening _ ih => rw [endsEscaped_cons (by decide), ih]
  | closing _ ih => rw [endsEscaped_cons (by decide), ih]
  | cons hb _ _ _ ih => rw [endsEscaped_cons hb, ih]

/-- The closing braces to spare are those of the braces around the text. -/
theorem surplus_eq (h : Balanced depth cs) : surplus cs = depth := by
  induction h with
  | nil => rfl
  | escape c _ ih => rw [surplus, ih]
  | opening _ ih => rw [surplus, ih, Nat.add_sub_cancel]
  | closing _ ih => rw [surplus, ih]
  | cons hb ho hc _ ih =>
    rw [surplus, ih]
    · intro d ds h
      exact absurd h hb
    · exact ho
    · exact hc

theorem splitBefore?_append (h : Balanced depth cs) (rest : List Char) :
    splitBefore? '}' depth (cs ++ '}' :: rest) = some (cs, '}' :: rest) := by
  induction h with
  | nil => simp [splitBefore?]
  | escape c _ ih => simp [splitBefore?, ih]
  | opening _ ih => simp [splitBefore?, deepen, ih]
  | closing _ ih => simp [splitBefore?, deepen, ih]
  | @cons depth c cs hb ho hc _ ih =>
    have hd : deepen depth c = depth := by
      unfold deepen
      split
      · contradiction
      · contradiction
      · rfl
    rw [List.cons_append, splitBefore?]
    · simp [hc, hd, ih]
    · exact hb

end Balanced

/-- Only balanced texts are found between braces. -/
theorem balanced_of_splitBefore? (h : splitBefore? '}' depth cs = some (inner, rest)) :
    Balanced depth inner ∧ ∃ after, rest = '}' :: after := by
  fun_induction splitBefore? '}' depth cs generalizing inner with
  | case1 => contradiction
  | case2 => contradiction
  | case3 depth c cs ih =>
    obtain ⟨⟨i, r⟩, hi, he⟩ := Option.map_eq_some_iff.1 h
    cases he
    exact ⟨.escape c (ih hi).1, (ih hi).2⟩
  | case4 depth c cs hc hd =>
    obtain ⟨rfl, rfl⟩ := hd
    cases h
    exact ⟨.nil, cs, rfl⟩
  | case5 depth c cs hb hd ih =>
    obtain ⟨⟨i, r⟩, hi, he⟩ := Option.map_eq_some_iff.1 h
    cases he
    refine ⟨?_, (ih hi).2⟩
    have hr := (ih hi).1
    unfold deepen at hr
    split at hr
    · exact .opening hr
    · cases depth with
      | zero => exact absurd ⟨rfl, rfl⟩ hd
      | succ depth => exact .closing hr
    · next ho hc => exact .cons hb ho hc hr

theorem splitBefore?_eq_some_iff : splitBefore? '}' depth cs = some (inner, rest) ↔
    Balanced depth inner ∧ ∃ after, rest = '}' :: after ∧ cs = inner ++ '}' :: after := by
  constructor
  · intro h
    obtain ⟨hi, after, ha⟩ := balanced_of_splitBefore? h
    exact ⟨hi, after, ha, by rw [← ha, append_of_splitBefore? h]⟩
  · rintro ⟨hi, after, rfl, rfl⟩
    exact hi.splitBefore?_append after

instance (depth : Nat) (cs : List Char) : Decidable (Balanced depth cs) :=
  decidable_of_iff (splitBefore? '}' depth (cs ++ ['}']) = some (cs, ['}'])) <| by
    rw [splitBefore?_eq_some_iff]
    simp

theorem endsEscaped_of_splitBefore? {close : Char}
    (h : splitBefore? close depth cs = some (inner, rest)) :
    endsEscaped inner = false ∧ ∃ after, rest = close :: after := by
  fun_induction splitBefore? close depth cs generalizing inner with
  | case1 => contradiction
  | case2 => contradiction
  | case3 depth c cs ih =>
    obtain ⟨⟨i, r⟩, hi, he⟩ := Option.map_eq_some_iff.1 h
    cases he
    rw [endsEscaped_escape]
    exact ih hi
  | case4 depth c cs hc hd =>
    obtain ⟨rfl, rfl⟩ := hd
    cases h
    exact ⟨rfl, cs, rfl⟩
  | case5 depth c cs hb hd ih =>
    obtain ⟨⟨i, r⟩, hi, he⟩ := Option.map_eq_some_iff.1 h
    cases he
    rw [endsEscaped_cons hb]
    exact ih hi

/-- A bracket is found behind a text without brackets, braces and escapes. -/
theorem splitBefore?_append_of_forall {close : Char}
    (h : ∀ c ∈ cs, c ≠ close ∧ c ≠ '\\' ∧ c ≠ '{' ∧ c ≠ '}') (hb : close ≠ '\\')
    (rest : List Char) : splitBefore? close 0 (cs ++ close :: rest) = some (cs, close :: rest) := by
  induction cs with
  | nil =>
    rw [List.nil_append, splitBefore?]
    · simp
    · exact hb
  | cons c cs ih =>
    obtain ⟨hc, he, ho, hd⟩ := h c (List.mem_cons_self ..)
    have hn : deepen 0 c = 0 := by
      unfold deepen
      split
      · contradiction
      · contradiction
      · rfl
    rw [List.cons_append, splitBefore?]
    · simp [hc, hn, ih fun d hm => h d (List.mem_cons_of_mem _ hm)]
    · exact he

/-! ### Texts behind a bracket -/

/-- The text behind the first unescaped `close` outside all braces. -/
def behind? (close : Char) (depth : Nat) (cs : List Char) : Option (List Char) :=
  (splitBefore? close depth cs).map fun p => p.2.tail

theorem behind?_escape (close : Char) (depth : Nat) (c : Char) (cs : List Char) :
    behind? close depth ('\\' :: c :: cs) = behind? close depth cs := by
  rw [behind?, splitBefore?, Option.map_map]
  rfl

theorem behind?_cons {c : Char} (hc : c ≠ '\\') (close : Char) (depth : Nat) (cs : List Char) :
    behind? close depth (c :: cs) =
      if c = close ∧ depth = 0 then some cs else behind? close (deepen depth c) cs := by
  rw [behind?, splitBefore?]
  · split
    · rfl
    · rw [Option.map_map]
      rfl
  · exact hc

/-- Other characters than brackets, braces and backslashes are passed over. -/
theorem behind?_append_of_plain {close : Char} {front : List Char}
    (h : ∀ c ∈ front, c ≠ close ∧ c ≠ '\\' ∧ c ≠ '{' ∧ c ≠ '}')
    (depth : Nat) (cs : List Char) : behind? close depth (front ++ cs) = behind? close depth cs := by
  induction front with
  | nil => rfl
  | cons c front ih =>
    obtain ⟨hc, he, ho, hd⟩ := h c (List.mem_cons_self ..)
    have hn : deepen depth c = depth := by
      unfold deepen
      split
      · contradiction
      · contradiction
      · rfl
    rw [List.cons_append, behind?_cons he, if_neg fun h => hc h.1, hn,
      ih fun d hd => h d (List.mem_cons_of_mem _ hd)]

/-- What stands behind a closing bracket does not matter to it. -/
theorem exists_append_of_behind? {close : Char} (h : behind? close depth cs = some rest) :
    ∃ taken, cs = taken ++ rest ∧ ∀ after, behind? close depth (taken ++ after) = some after := by
  induction cs using escapeInduction generalizing depth with
  | nil => contradiction
  | lone => contradiction
  | escape c cs ih =>
    rw [behind?_escape] at h
    obtain ⟨taken, rfl, ht⟩ := ih h
    refine ⟨'\\' :: c :: taken, rfl, fun after => ?_⟩
    rw [List.cons_append, List.cons_append, behind?_escape, ht]
  | cons c cs hb ih =>
    rw [behind?_cons hb] at h
    split at h
    · next hc =>
      cases h
      exact ⟨[c], rfl, fun after => by rw [List.singleton_append, behind?_cons hb, if_pos hc]⟩
    · next hc =>
      obtain ⟨taken, rfl, ht⟩ := ih h
      refine ⟨c :: taken, rfl, fun after => ?_⟩
      rw [List.cons_append, behind?_cons hb, if_neg hc, ht]

/-! ### Blanks around balanced texts -/

open Text (IsBlank isBlank trim)

theorem ne_of_isBlank (h : isBlank c = true) : c ≠ '\\' ∧ c ≠ '{' ∧ c ≠ '}' ∧ c ≠ '%' := by
  refine ⟨?_, ?_, ?_, ?_⟩
  · rintro rfl
    contradiction
  · rintro rfl
    contradiction
  · rintro rfl
    contradiction
  · rintro rfl
    contradiction

theorem unescaped_of_isBlank (h : IsBlank cs) : unescaped cs = cs := by
  induction cs with
  | nil => rfl
  | cons c cs ih =>
    have hc := ne_of_isBlank (h c (List.mem_cons_self ..))
    rw [unescaped_cons hc.1, ih fun d hd => h d (List.mem_cons_of_mem _ hd)]

theorem endsEscaped_of_isBlank (h : IsBlank cs) : endsEscaped cs = false :=
  endsEscaped_of_not_mem fun hb => (ne_of_isBlank (h _ hb)).1 rfl

theorem unescaped_subset (cs : List Char) : unescaped cs ⊆ cs := by
  induction cs using escapeInduction with
  | nil => exact List.Subset.refl _
  | lone => exact List.nil_subset _
  | escape c cs ih =>
    rw [unescaped_escape]
    exact fun d hd => List.mem_cons_of_mem _ (List.mem_cons_of_mem _ (ih hd))
  | cons c cs hb ih =>
    rw [unescaped_cons hb]
    exact List.cons_subset_cons c ih

theorem unescaped_subset_append (cs ds : List Char) : unescaped cs ⊆ unescaped (cs ++ ds) := by
  induction cs using escapeInduction with
  | nil => exact List.nil_subset _
  | lone => exact List.nil_subset _
  | escape c cs ih => simpa using ih
  | cons c cs hb ih =>
    rw [List.cons_append, unescaped_cons hb, unescaped_cons hb]
    exact List.cons_subset_cons c ih

/-- A character after a text can become unescaped, but no character of the text itself. -/
theorem mem_unescaped_append (h : c ∈ unescaped (cs ++ ds)) : c ∈ unescaped cs ∨ c ∈ ds := by
  induction cs using escapeInduction with
  | nil => exact .inr (unescaped_subset ds h)
  | lone =>
    cases ds with
    | nil => contradiction
    | cons d ds =>
      rw [List.singleton_append, unescaped_escape] at h
      exact .inr (List.mem_cons_of_mem _ (unescaped_subset ds h))
  | escape d cs ih =>
    rw [List.cons_append, List.cons_append, unescaped_escape] at h
    rw [unescaped_escape]
    exact ih h
  | cons d cs hb ih =>
    rw [List.cons_append, unescaped_cons hb] at h
    rw [unescaped_cons hb]
    rcases List.mem_cons.1 h with rfl | h
    · exact .inl (List.mem_cons_self ..)
    · exact (ih h).imp_left (List.mem_cons_of_mem _)

theorem unescaped_trim_subset (cs : List Char) : unescaped (trim cs) ⊆ unescaped cs := by
  obtain ⟨before, after, hb, -, he⟩ := Text.exists_trim_eq cs
  conv_rhs => rw [he, unescaped_append (endsEscaped_of_isBlank hb)]
  exact fun c hc => List.mem_append_right _ (unescaped_subset_append _ _ hc)

namespace Balanced

theorem of_cons_blank (hc : isBlank c = true) (h : Balanced depth (c :: cs)) : Balanced depth cs := by
  cases h with
  | escape => contradiction
  | opening => contradiction
  | closing => contradiction
  | cons _ _ _ h => exact h

theorem of_blank_append {bs : List Char} (hb : IsBlank bs) (h : Balanced depth (bs ++ cs)) :
    Balanced depth cs := by
  induction bs with
  | nil => exact h
  | cons b bs ih =>
    apply ih fun c hc => hb c (List.mem_cons_of_mem _ hc)
    exact of_cons_blank (hb b (List.mem_cons_self ..)) h

/-- Blanks at the end can be cut off as long as no backslash escapes the first of them. -/
theorem of_append_blank {bs : List Char} (hb : IsBlank bs) (hc : endsEscaped cs = false)
    (h : Balanced depth (cs ++ bs)) : Balanced depth cs := by
  induction cs using escapeInduction generalizing depth with
  | nil =>
    apply of_blank_append hb
    simpa using h
  | lone => contradiction
  | escape c cs ih =>
    rw [endsEscaped_escape] at hc
    cases h with
    | escape _ h => exact .escape c (ih hc h)
    | cons hb => contradiction
  | cons c cs hb ih =>
    rw [endsEscaped_cons hb] at hc
    rw [List.cons_append] at h
    generalize hd : cs ++ bs = ds at h
    cases h with
    | escape => contradiction
    | opening h => exact .opening (ih hc (hd ▸ h))
    | closing h => exact .closing (ih hc (hd ▸ h))
    | cons _ ho hcl h => exact .cons hb ho hcl (ih hc (hd ▸ h))

theorem trim (h : Balanced depth cs) (hc : endsEscaped (trim cs) = false) :
    Balanced depth (Text.trim cs) := by
  obtain ⟨before, after, hb, ha, he⟩ := Text.exists_trim_eq cs
  rw [he] at h
  exact of_append_blank ha hc (of_blank_append hb h)

end Balanced

/-! ### Escaped texts -/

/-- The texts that escaping makes and keeps: balanced, with every percent sign escaped, and without
line breaks. -/
inductive Safe : (depth : Nat) → List Char → Prop
  | nil : Safe 0 []
  | escape {depth : Nat} {c : Char} {cs : List Char} (hn : c ≠ '\n') (hr : c ≠ '\r')
    (h : Safe depth cs) : Safe depth ('\\' :: c :: cs)
  | opening {depth : Nat} {cs : List Char} (h : Safe (depth + 1) cs) : Safe depth ('{' :: cs)
  | closing {depth : Nat} {cs : List Char} (h : Safe depth cs) : Safe (depth + 1) ('}' :: cs)
  | cons {depth : Nat} {c : Char} {cs : List Char} (hb : c ≠ '\\') (ho : c ≠ '{') (hc : c ≠ '}')
    (hp : c ≠ '%') (hn : c ≠ '\n') (hr : c ≠ '\r') (h : Safe depth cs) : Safe depth (c :: cs)

namespace Safe

theorem balanced (h : Safe depth cs) : Balanced depth cs := by
  induction h with
  | nil => exact .nil
  | escape _ _ _ ih => exact .escape _ ih
  | opening _ ih => exact .opening ih
  | closing _ ih => exact .closing ih
  | cons hb ho hc _ _ _ _ ih => exact .cons hb ho hc ih

theorem percent_not_mem (h : Safe depth cs) : '%' ∉ unescaped cs := by
  induction h with
  | nil => exact List.not_mem_nil
  | escape _ _ _ ih => simpa using ih
  | opening _ ih => simpa [unescaped_cons] using ih
  | closing _ ih => simpa [unescaped_cons] using ih
  | cons hb _ _ hp _ _ _ ih => simpa [unescaped_cons hb, Ne.symm hp] using ih

theorem ne_break (h : Safe depth cs) (hc : c ∈ cs) : c ≠ '\n' ∧ c ≠ '\r' := by
  induction h with
  | nil => contradiction
  | escape hn hr _ ih =>
    rcases List.mem_cons.1 hc with rfl | hc
    · decide
    · rcases List.mem_cons.1 hc with rfl | hc
      · exact ⟨hn, hr⟩
      · exact ih hc
  | opening _ ih =>
    rcases List.mem_cons.1 hc with rfl | hc
    · decide
    · exact ih hc
  | closing _ ih =>
    rcases List.mem_cons.1 hc with rfl | hc
    · decide
    · exact ih hc
  | cons _ _ _ _ hn hr _ ih =>
    rcases List.mem_cons.1 hc with rfl | hc
    · exact ⟨hn, hr⟩
    · exact ih hc

end Safe

theorem unbreak_eq_self (hn : c ≠ '\n') (hr : c ≠ '\r') : unbreak c = c := by
  simp [unbreak, hn, hr]

theorem unbreak_ne {d : Char} (hd : d ≠ ' ') (h : c ≠ d) : unbreak c ≠ d := by
  unfold unbreak
  split
  · exact hd.symm
  · exact h

theorem unbreak_ne_break (c : Char) : unbreak c ≠ '\n' ∧ unbreak c ≠ '\r' := by
  unfold unbreak
  split
  · decide
  · next h => exact not_or.1 h

/-- No more braces are open than the rest of the text has closing braces to spare. -/
theorem safe_escapeWithin (h : depth ≤ surplus cs) : Safe depth (escapeWithin depth cs) := by
  fun_induction escapeWithin depth cs with
  | case1 depth =>
    cases Nat.le_zero.1 h
    exact .nil
  | case2 depth =>
    cases Nat.le_zero.1 h
    exact .escape (by decide) (by decide) .nil
  | case3 depth c cs ih => exact .escape (unbreak_ne_break c).1 (unbreak_ne_break c).2 (ih h)
  | case4 depth cs ih => exact .escape (by decide) (by decide) (ih h)
  | case5 depth cs hs ih => exact .opening (ih (by rw [surplus] at h; omega))
  | case6 depth cs hs ih =>
    exact .escape (by decide) (by decide) (ih (by rw [surplus] at h; omega))
  | case7 cs ih => exact .escape (by decide) (by decide) (ih (Nat.zero_le _))
  | case8 depth cs ih => exact .closing (ih (Nat.le_of_succ_le_succ h))
  | case9 depth c cs hl he hp ho hz hs ih =>
    have hb : c ≠ '\\' := by
      intro hcb
      cases cs with
      | nil => exact hl hcb rfl
      | cons d ds => exact he d ds hcb rfl
    have hc : c ≠ '}' := by
      intro hcc
      cases depth with
      | zero => exact hz rfl hcc
      | succ depth => exact hs depth rfl hcc
    have hsurplus : surplus (c :: cs) = surplus cs := by
      rw [surplus]
      · exact he
      · exact ho
      · exact hc
    rw [hsurplus] at h
    exact .cons (unbreak_ne (by decide) hb) (unbreak_ne (by decide) ho) (unbreak_ne (by decide) hc)
      (unbreak_ne (by decide) hp) (unbreak_ne_break c).1 (unbreak_ne_break c).2 (ih h)

theorem safe_escape (cs : List Char) : Safe 0 (escape cs) := safe_escapeWithin (Nat.zero_le _)

/-- Nothing is escaped in a balanced text without comments. -/
theorem Balanced.escapeWithin_eq (h : Balanced depth cs) (hp : '%' ∉ unescaped cs) :
    escapeWithin depth cs = cs.map unbreak := by
  induction h with
  | nil => rw [escapeWithin, List.map_nil]
  | escape c h ih =>
    rw [unescaped_escape] at hp
    rw [escapeWithin, ih hp]
    rfl
  | opening h ih =>
    rw [unescaped_cons (by decide), List.mem_cons, not_or] at hp
    rw [escapeWithin, if_pos (by simp [h.surplus_eq]), ih hp.2]
    rfl
  | closing _ ih =>
    rw [unescaped_cons (by decide), List.mem_cons, not_or] at hp
    rw [escapeWithin, ih hp.2]
    rfl
  | cons hb ho hc _ ih =>
    rw [unescaped_cons hb, List.mem_cons, not_or] at hp
    rw [escapeWithin, ih hp.2, List.map_cons]
    · intro h
      exact absurd h hb
    · intro d ds h
      exact absurd h hb
    · exact Ne.symm hp.1
    · exact ho
    · intro _ h
      exact absurd h hc
    · intro _ _ h
      exact absurd h hc

theorem map_unbreak_eq_self (h : ∀ c ∈ cs, c ≠ '\n' ∧ c ≠ '\r') : cs.map unbreak = cs := by
  rw [List.map_congr_left fun c hc => unbreak_eq_self (h c hc).1 (h c hc).2, List.map_id']

theorem Safe.escapeWithin_eq (h : Safe depth cs) : escapeWithin depth cs = cs := by
  rw [h.balanced.escapeWithin_eq h.percent_not_mem, map_unbreak_eq_self fun c hc => h.ne_break hc]

@[simp] theorem escape_escape (cs : List Char) : escape (escape cs) = escape cs :=
  (safe_escape cs).escapeWithin_eq

end Sketch.Braces
