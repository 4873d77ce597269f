import Sketch.Proofs.Code.Options

/-!
What the readers of the parts of a command take from a line. A reader reads a text wherever the text
stands in its line; the place matters only for the spans of what cannot be read.
-/

namespace Sketch.Command

section Steps

variable {α β : Type} {r : Reader α} {f : α → Reader β} {text text' rest : List Char} {a : α} {b : β}

/-- The reader takes `a` from the front of the text and leaves the rest. -/
def Reads (r : Reader α) (text : List Char) (a : α) (rest : List Char) : Prop :=
  ∀ n, ∃ m, r ⟨n, text⟩ = .ok (a, ⟨m, rest⟩)

/-- The reader finds nothing that it can take at the front of the text. -/
def Rejects (r : Reader α) (text : List Char) : Prop := ∀ n, ∃ m, r ⟨n, text⟩ = .error m

theorem bind_apply {c d : Cursor} (h : r c = .ok (a, d)) : (r >>= f) c = f a d := by
  change (r c >>= fun p => f p.1 p.2) = _
  rw [h]
  rfl

theorem exists_of_bind_eq {c d : Cursor} (h : (r >>= f) c = .ok (b, d)) :
    ∃ a k, r c = .ok (a, k) ∧ f a k = .ok (b, d) := by
  change (r c >>= fun p => f p.1 p.2) = _ at h
  cases hr : r c with
  | error m =>
    rw [hr] at h
    contradiction
  | ok p =>
    rw [hr] at h
    exact ⟨p.1, p.2, rfl, h⟩

theorem error_of_bind_eq {c : Cursor} {m : Mismatch} (h : (r >>= f) c = .error m) :
    r c = .error m ∨ ∃ a k, r c = .ok (a, k) ∧ f a k = .error m := by
  change (r c >>= fun p => f p.1 p.2) = _ at h
  cases hr : r c with
  | error n =>
    rw [hr] at h
    cases h
    exact .inl rfl
  | ok p =>
    rw [hr] at h
    exact .inr ⟨p.1, p.2, rfl, h⟩

theorem eq_of_pure_eq {a' : α} {c d : Cursor} (h : (pure a : Reader α) c = .ok (a', d)) :
    a' = a ∧ d = c := by
  cases h
  exact ⟨rfl, rfl⟩

theorem get_apply (c : Cursor) : (get : Reader Cursor) c = .ok (c, c) := rfl

theorem reads_pure (a : α) (text : List Char) : Reads (pure a) text a text := fun n => ⟨n, rfl⟩

theorem Reads.bind (h : Reads r text a text') (h' : Reads (f a) text' b rest) :
    Reads (r >>= f) text b rest := by
  intro n
  obtain ⟨k, hk⟩ := h n
  obtain ⟨m, hm⟩ := h' k
  exact ⟨m, (bind_apply hk).trans hm⟩

theorem Reads.bind_rejects (h : Reads r text a text') (h' : Rejects (f a) text') :
    Rejects (r >>= f) text := by
  intro n
  obtain ⟨k, hk⟩ := h n
  obtain ⟨m, hm⟩ := h' k
  exact ⟨m, (bind_apply hk).trans hm⟩

theorem Rejects.bind (h : Rejects r text) : Rejects (r >>= f) text := by
  intro n
  obtain ⟨m, hm⟩ := h n
  refine ⟨m, ?_⟩
  change (r ⟨n, text⟩ >>= fun p => f p.1 p.2) = _
  rw [hm]
  rfl

theorem Reads.readLine_eq (h : Reads r text a rest) : readLine r text = .ok a := by
  obtain ⟨m, hm⟩ := h 0
  change (r ⟨0, text⟩).map (·.1) = _
  rw [hm]
  rfl

theorem Rejects.exists_readLine_eq (h : Rejects r text) : ∃ m, readLine r text = .error m := by
  obtain ⟨m, hm⟩ := h 0
  refine ⟨m, ?_⟩
  change (r ⟨0, text⟩).map (·.1) = _
  rw [hm]
  rfl

end Steps

variable {text rest raw inner : List Char} {word : String}

/-! ### Words and spaces -/

theorem reads_spacing (text : List Char) :
    Reads spacing text () (text.dropWhile Text.isSpacing) := fun _ => ⟨_, rfl⟩

theorem reads_skips (word : String) (rest : List Char) :
    Reads (skips word) (word.toList ++ rest) true rest := by
  intro n
  refine ⟨n + Text.size word.toList, ?_⟩
  simp only [skips, Text.after?_eq_some.2 rfl]

theorem reads_skips_false (h : Text.after? word.toList text = none) :
    Reads (skips word) text false text := by
  intro n
  refine ⟨n, ?_⟩
  simp only [skips, h]

theorem reads_literal (word : String) (rest : List Char) :
    Reads (literal word) (word.toList ++ rest) () rest :=
  (reads_skips word rest).bind (reads_pure () rest)

theorem rejects_literal (h : Text.after? word.toList text = none) : Rejects (literal word) text :=
  (reads_skips_false h).bind_rejects fun _ => ⟨.shape, rfl⟩

theorem reads_keyword (h : text.dropWhile Text.isSpacing = word.toList ++ rest) :
    Reads (keyword word) text () (rest.dropWhile Text.isSpacing) := by
  refine (reads_spacing text).bind ?_
  rw [h]
  exact (reads_literal word rest).bind (reads_spacing rest)

theorem rejects_keyword (h : Text.after? word.toList (text.dropWhile Text.isSpacing) = none) :
    Rejects (keyword word) text :=
  (reads_spacing text).bind_rejects (rejects_literal h).bind

/-! ### Numbers and points -/

theorem isNumberChar_code {x : Float} (h : x.isFinite = true) :
    ∀ c ∈ (Number.code x).toList, isNumberChar c = true :=
  Number.forall_mem_code h (by decide)

theorem dropWhile_code {x : Float} (h : x.isFinite = true) (rest : List Char) :
    ((Number.code x).toList ++ rest).dropWhile Text.isSpacing = (Number.code x).toList ++ rest := by
  have hs : ∀ c ∈ (Number.code x).toList, Text.isSpacing c = false :=
    Number.forall_mem_code h (by decide)
  cases hc : (Number.code x).toList with
  | nil => exact absurd hc (Number.code_ne_nil h)
  | cons c cs =>
    rw [List.cons_append, List.dropWhile_cons_of_neg]
    simp [hs c (hc ▸ List.mem_cons_self ..)]

/-- A number is taken up to the first character that cannot be part of it. -/
theorem reads_number {x : Float} (h : x.isFinite = true)
    (hr : ∀ c ∈ rest.head?, isNumberChar c = false) :
    Reads number ((Number.code x).toList ++ rest) (Number.unsigned x) rest := by
  have hc := isNumberChar_code h
  have hnil : rest.takeWhile isNumberChar = [] ∧ rest.dropWhile isNumberChar = rest := by
    cases rest with
    | nil => simp
    | cons c cs => simp [hr c rfl]
  have ht : ((Number.code x).toList ++ rest).takeWhile isNumberChar = (Number.code x).toList := by
    rw [List.takeWhile_append_of_pos hc, hnil.1, List.append_nil]
  have hd : ((Number.code x).toList ++ rest).dropWhile isNumberChar = rest := by
    rw [List.dropWhile_append_of_pos hc, hnil.2]
  have hne : (Number.code x).toList.isEmpty = false := by
    simpa using Number.code_ne_nil h
  intro n
  have hrun : run isNumberChar ⟨n, (Number.code x).toList ++ rest⟩ =
      .ok ((Number.code x).toList, ⟨n + Text.size (Number.code x).toList, rest⟩) := by
    rw [run, ht, hd]
  refine ⟨n + Text.size (Number.code x).toList, ?_⟩
  unfold number
  rw [bind_apply (get_apply _), bind_apply hrun, hne, Number.readFinite?_code h]
  rfl

theorem reads_point {p : Point} (h : p.IsFinite) (rest : List Char) :
    Reads point (p.code.toList ++ rest) p.unsigned rest := by
  rw [Point.code]
  simp only [String.toList_append, List.append_assoc]
  refine (reads_literal "(" _).bind ?_
  refine (reads_spacing _).bind ?_
  rw [dropWhile_code h.x]
  refine (reads_number h.x (by simp [isNumberChar])).bind ?_
  refine (reads_keyword rfl).bind ?_
  rw [dropWhile_code h.y]
  refine (reads_number h.y (by simp [isNumberChar])).bind ?_
  refine (reads_spacing _).bind ?_
  exact (reads_literal ")" rest).bind (reads_pure _ _)

/-! ### Options -/

theorem reads_options_empty (h : ∀ cs, text ≠ '[' :: cs) : Reads options text {} text := by
  intro n
  refine ⟨n, ?_⟩
  unfold options
  split
  · next cs hc => exact absurd hc (h cs)
  · rfl

theorem reads_options (h : Braces.splitBefore? ']' 0 (raw ++ ']' :: rest) = some (raw, ']' :: rest)) :
    Reads options ('[' :: raw ++ ']' :: rest) (.ofText raw) rest := by
  intro n
  refine ⟨n + Text.size raw + 2, ?_⟩
  simp only [options, List.cons_append, h]

/-- An option list may always be left out. -/
theorem exists_reads_options_any (text : List Char) :
    ∃ (o : Options) (rest : List Char), Reads options text o rest := by
  cases text with
  | nil => exact ⟨_, _, reads_options_empty (by simp)⟩
  | cons c cs =>
    by_cases hc : c = '['
    · subst hc
      cases hs : Braces.splitBefore? ']' 0 cs with
      | none => exact ⟨{}, '[' :: cs, fun n => ⟨n, by simp only [options, hs]⟩⟩
      | some p =>
        obtain ⟨raw, rest⟩ := p
        cases rest with
        | nil => exact ⟨{}, '[' :: cs, fun n => ⟨n, by simp only [options, hs]⟩⟩
        | cons b rest => exact ⟨_, rest, fun n => ⟨_, by simp only [options, hs]; rfl⟩⟩
    · exact ⟨{}, c :: cs, reads_options_empty (by simp [hc])⟩

/-! ### Braces and the end -/

theorem reads_braced (h : Braces.Balanced 0 inner) (rest : List Char) :
    Reads braced ('{' :: inner ++ '}' :: rest) inner rest := by
  intro n
  refine ⟨n + Text.size inner + 2, ?_⟩
  simp only [braced, List.cons_append, h.splitBefore?_append]

theorem rejects_braced (h : ∀ inner, Braces.Balanced 0 inner → ∀ rest, text ≠ inner ++ '}' :: rest) :
    Rejects braced ('{' :: text) := by
  intro n
  refine ⟨.shape, ?_⟩
  unfold braced
  dsimp only
  cases hs : Braces.splitBefore? '}' 0 text with
  | none => simp only [hs]
  | some p =>
    obtain ⟨hb, rest, -, ht⟩ := Braces.splitBefore?_eq_some_iff.1 hs
    exact absurd ht (h p.1 hb rest)

theorem reads_finish {before after : List Char} (hb : Text.IsSpacing before)
    (ha : Text.IsSpacing after) : Reads finish (before ++ ';' :: after) () [] := by
  have hd : (before ++ ';' :: after).dropWhile Text.isSpacing = ";".toList ++ after := by
    rw [List.dropWhile_append_of_pos hb]
    rfl
  have hn : after.dropWhile Text.isSpacing = [] := List.dropWhile_eq_nil_iff.2 ha
  refine (reads_keyword hd).bind ?_
  rw [hn]
  exact fun n => ⟨n, rfl⟩

theorem rejects_finish (h : ∀ before after, Text.IsSpacing before → Text.IsSpacing after →
    text ≠ before ++ ';' :: after) : Rejects finish text := by
  cases hs : Text.after? ";".toList (text.dropWhile Text.isSpacing) with
  | none => exact (rejects_keyword hs).bind
  | some after =>
    have hd := Text.after?_eq_some.1 hs
    refine (reads_keyword hd).bind_rejects fun n => ⟨.shape, ?_⟩
    have hn : (after.dropWhile Text.isSpacing).isEmpty = false := by
      rw [List.isEmpty_eq_false_iff]
      intro hn
      apply h (text.takeWhile Text.isSpacing) after
      · exact fun _ hc => List.mem_takeWhile_imp hc
      · exact List.dropWhile_eq_nil_iff.1 hn
      · conv_lhs => rw [← List.takeWhile_append_dropWhile (p := Text.isSpacing) (l := text), hd]
        rfl
    change (if (after.dropWhile Text.isSpacing).isEmpty then pure () else throw .shape :
      Reader Unit) ⟨n, after.dropWhile Text.isSpacing⟩ = _
    rw [hn]
    rfl

/-! ### The front of a command -/

/-- A written style is read, whether it has options or not. -/
theorem exists_reads_options {s : Style} (h : s.IsFinite) (kind : Kind)
    {c : Char} (hs : Text.isSpacing c = false) (hc : c ≠ '[') (rest : List Char) :
    ∃ (o : Options) (mid : List Char), o.Says kind s ∧
      Reads options (((s.code kind.colorKey).toList ++ ' ' :: c :: rest).dropWhile Text.isSpacing) o mid ∧
      mid.dropWhile Text.isSpacing = c :: rest := by
  have hd : (c :: rest).dropWhile Text.isSpacing = c :: rest := by
    rw [List.dropWhile_cons_of_neg]
    simp [hs]
  have hw := s.writes_options h kind
  by_cases hn : s.options kind.colorKey = []
  · refine ⟨{}, c :: rest, s.says_empty h kind hn, ?_, hd⟩
    have hcode : s.code kind.colorKey = "" := by
      unfold Style.code
      rw [hn]
    rw [hcode]
    change Reads options ((c :: rest).dropWhile Text.isSpacing) _ _
    rw [hd]
    apply reads_options_empty
    intro cs h
    exact hc (List.cons.inj h).1
  · refine ⟨_, ' ' :: c :: rest, s.says_ofText h kind hn, ?_, hd⟩
    have hcode : s.code kind.colorKey = "[" ++ ", ".intercalate (s.options kind.colorKey) ++ "]" := by
      unfold Style.code
      split
      · contradiction
      · rfl
    rw [hcode]
    simp only [String.toList_append, List.append_assoc]
    exact reads_options (hw.splitBefore?_eq _)

/-- The front of a command up to its first argument. -/
theorem exists_reads_head {s : Style} (h : s.IsFinite) (kind : Kind)
    {c : Char} (hs : Text.isSpacing c = false) (hc : c ≠ '[') (name : String) (rest : List Char) :
    ∃ o : Options, o.Says kind s ∧
      Reads (head name) (name.toList ++ ((s.code kind.colorKey).toList ++ ' ' :: c :: rest)) o
        (c :: rest) := by
  obtain ⟨o, mid, ho, hr, hm⟩ := exists_reads_options h kind hs hc rest
  refine ⟨o, ho, ?_⟩
  refine (reads_literal name _).bind ?_
  refine (reads_spacing _).bind ?_
  refine hr.bind ?_
  refine (reads_spacing mid).bind ?_
  rw [hm]
  exact reads_pure o _

end Sketch.Command
