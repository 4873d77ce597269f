import Sketch.Code.Printer
import Sketch.Proofs.Element
import Sketch.Proofs.Number.Notation

/-!
Lists of entries. A list is split where its entries were put together, and each entry is read by its
key as the setting that it was written for.
-/

namespace Sketch

/-! ### Numbers in code -/

namespace Number

variable {x : Float}

@[simp] theorem code_unsigned (x : Float) : code (unsigned x) = code x := by
  by_cases h : (x == 0) = true
  · rw [unsigned_eq_zero h]
    exact (if_pos h).symm
  · rw [unsigned_eq_self h]

theorem readFinite?_code (h : x.isFinite = true) :
    readFinite? (code x).toList = some (unsigned x) := by
  unfold code unsigned
  split
  · rfl
  · rw [text, String.toList_ofList, readFinite?_write h]

theorem isNotation_code (h : x.isFinite = true) : IsNotation (code x).toList := by
  unfold code
  split
  · intro c hc
    cases List.mem_singleton.1 hc
    exact .inl rfl
  · rw [text, String.toList_ofList]
    exact isNotation_write h

theorem code_ne_nil (h : x.isFinite = true) : (code x).toList ≠ [] := by
  intro hn
  have hr := readFinite?_code h
  rw [hn] at hr
  contradiction

/-- A class of characters that has the digits, the point and the minus sign has all of a number. -/
theorem forall_mem_code {p : Char → Prop} (hx : x.isFinite = true)
    (h : ∀ c ∈ "0123456789.-".toList, p c) : ∀ c ∈ (code x).toList, p c := by
  intro c hc
  apply h
  rcases isNotation_code hx c hc with hd | rfl | rfl
  · exact List.mem_append_left ['.', '-'] (mem_of_isDigit hd)
  · decide
  · decide

end Number

/-! ### Entries -/

/-- The characters that stand for themselves everywhere in code. -/
def Text.isPlain (c : Char) : Bool := !(['\\', '{', '}', '%', '\n'].contains c)

theorem Text.ne_of_isPlain {c : Char} (h : isPlain c = true) :
    c ≠ '\\' ∧ c ≠ '{' ∧ c ≠ '}' ∧ c ≠ '%' ∧ c ≠ '\n' := by
  simpa [isPlain, not_or] using h

/-- The names of infinity and of not-a-number are as plain as digits are. -/
theorem Number.isPlain_code (x : Float) : ∀ c ∈ (code x).toList, Text.isPlain c = true := by
  have hd : ∀ c ∈ "0123456789".toList, Text.isPlain c = true := by decide
  unfold code
  split
  · decide
  · rw [text, String.toList_ofList, write]
    split
    · intro c hc
      rcases isNotation_positional _ c hc with hc | rfl | rfl
      · exact hd c (mem_of_isDigit hc)
      · rfl
      · rfl
    · split
      · decide
      · split
        · decide
        · decide

/-- Texts that can be entries of an option list. -/
structure IsEntry (cs : List Char) : Prop where
  isPlain : ∀ c ∈ cs, Text.isPlain c = true
  comma_not_mem : ',' ∉ cs
  bracket_not_mem : ']' ∉ cs
  trim_eq : Text.trim cs = cs

namespace IsEntry

variable {cs ds : List Char}

theorem iff : IsEntry cs ↔
    (∀ c ∈ cs, Text.isPlain c = true) ∧ ',' ∉ cs ∧ ']' ∉ cs ∧ Text.trim cs = cs :=
  ⟨fun ⟨hp, hc, hb, ht⟩ => ⟨hp, hc, hb, ht⟩, fun ⟨hp, hc, hb, ht⟩ => ⟨hp, hc, hb, ht⟩⟩

instance (cs : List Char) : Decidable (IsEntry cs) := decidable_of_iff _ iff.symm

theorem of_forall (h : ∀ c ∈ cs, Text.isPlain c = true ∧ Text.isBlank c = false ∧ c ≠ ',' ∧ c ≠ ']') :
    IsEntry cs where
  isPlain c hc := (h c hc).1
  comma_not_mem hc := (h ',' hc).2.2.1 rfl
  bracket_not_mem hc := (h ']' hc).2.2.2 rfl
  trim_eq := Text.trim_of_forall fun c hc => (h c hc).2.1

theorem append (hc : IsEntry cs) (hd : IsEntry ds) (hcn : cs ≠ []) (hdn : ds ≠ []) :
    IsEntry (cs ++ ds) where
  isPlain c hm := (List.mem_append.1 hm).elim (hc.isPlain c) (hd.isPlain c)
  comma_not_mem hm := (List.mem_append.1 hm).elim hc.comma_not_mem hd.comma_not_mem
  bracket_not_mem hm := (List.mem_append.1 hm).elim hc.bracket_not_mem hd.bracket_not_mem
  trim_eq := Text.trim_append hc.trim_eq hd.trim_eq hcn hdn

theorem brace_not_mem (h : IsEntry cs) : '{' ∉ cs := by
  intro hm
  have := h.isPlain _ hm
  contradiction

theorem code {x : Float} (h : x.isFinite = true) : IsEntry (Number.code x).toList :=
  of_forall (Number.forall_mem_code h (by decide))

end IsEntry

namespace Options

variable {cs e f rest : List Char} {es fs : List (List Char)}

theorem splitEntries_ne_nil (depth : Nat) (cs : List Char) : splitEntries depth cs ≠ [] := by
  induction cs generalizing depth with
  | nil => simp [splitEntries]
  | cons c cs ih =>
    rw [splitEntries]
    split
    · simp
    · cases hs : splitEntries (Braces.deepen depth c) cs with
      | nil => exact absurd hs (ih _)
      | cons e es => simp [consEntry]

theorem deepen_of_isPlain {c : Char} (h : Text.isPlain c = true) (depth : Nat) :
    Braces.deepen depth c = depth := by
  unfold Braces.deepen
  split
  · contradiction
  · contradiction
  · rfl

/-- Every comma of the text stands between braces, if `depth` braces are open before the text. -/
def IsWhole (depth : Nat) (e : List Char) : Prop :=
  ∀ front back, e = front ++ ',' :: back → front.foldl Braces.deepen depth ≠ 0

namespace IsWhole

variable {depth : Nat} {c : Char}

theorem nil (depth : Nat) : IsWhole depth [] := fun front back h => by simp at h

theorem of_not_mem (h : ',' ∉ e) (depth : Nat) : IsWhole depth e := by
  rintro front back rfl
  simp at h

theorem cons (h : IsWhole (Braces.deepen depth c) e) (hc : ¬(c = ',' ∧ depth = 0)) :
    IsWhole depth (c :: e) := by
  intro front back he hd
  cases front with
  | nil => exact hc ⟨(List.cons.inj he).1, hd⟩
  | cons d front =>
    obtain ⟨rfl, hrest⟩ := List.cons.inj he
    exact h front back hrest hd

/-- A whole text stands before the first of the entries that follow. -/
theorem splitEntries_append (h : IsWhole depth e)
    (hr : splitEntries (e.foldl Braces.deepen depth) rest = f :: fs) :
    splitEntries depth (e ++ rest) = (e ++ f) :: fs := by
  induction e generalizing depth with
  | nil => exact hr
  | cons c e ih =>
    have hc : ¬(c = ',' ∧ depth = 0) := fun ⟨hc, hd⟩ => h [] e (by rw [hc]; rfl) hd
    have he : IsWhole (Braces.deepen depth c) e := fun front back hrest =>
      h (c :: front) back (by rw [hrest]; rfl)
    rw [List.cons_append, splitEntries, if_neg hc, ih he hr]
    rfl

end IsWhole

theorem foldl_deepen_of_isPlain (h : ∀ c ∈ cs, Text.isPlain c = true) (depth : Nat) :
    cs.foldl Braces.deepen depth = depth := by
  induction cs with
  | nil => rfl
  | cons c cs ih =>
    rw [List.foldl_cons, deepen_of_isPlain (h c (List.mem_cons_self ..)),
      ih fun d hd => h d (List.mem_cons_of_mem _ hd)]

/-- An entry stands before the first of the entries that follow. -/
theorem splitEntries_append (h : IsEntry cs) (hr : splitEntries 0 rest = f :: fs) :
    splitEntries 0 (cs ++ rest) = (cs ++ f) :: fs := by
  apply (IsWhole.of_not_mem h.comma_not_mem 0).splitEntries_append
  rwa [foldl_deepen_of_isPlain h.isPlain]

theorem map_trim_consEntry_blank (es : List (List Char)) (hes : es ≠ []) :
    (consEntry ' ' es).map Text.trim = es.map Text.trim := by
  cases es with
  | nil => contradiction
  | cons e es =>
    simp only [consEntry, List.map_cons]
    have hb : Text.IsBlank [' '] := by
      intro c hc
      cases List.mem_singleton.1 hc
      rfl
    exact congrArg (· :: es.map Text.trim) (Text.trim_append_left hb e)

theorem map_trim_splitEntries (h : ∀ e ∈ es, IsEntry e) (hne : es ≠ []) :
    (splitEntries 0 (", ".toList.intercalate es)).map Text.trim = es := by
  induction es with
  | nil => contradiction
  | cons e es ih =>
    have he := h e (List.mem_cons_self ..)
    cases es with
    | nil =>
      have hs : splitEntries 0 (e ++ []) = [e ++ []] := splitEntries_append he rfl
      rw [List.append_nil] at hs
      simp [hs, he.trim_eq]
    | cons e' es =>
      have hr : splitEntries 0 (", ".toList ++ ", ".toList.intercalate (e' :: es)) =
          [] :: consEntry ' ' (splitEntries 0 (", ".toList.intercalate (e' :: es))) := rfl
      have hs := splitEntries_append he hr
      rw [List.intercalate_cons_cons, List.append_assoc, hs, List.map_cons, List.append_nil, he.trim_eq,
        map_trim_consEntry_blank _ (splitEntries_ne_nil _ _),
        ih (fun d hd => h d (List.mem_cons_of_mem _ hd)) (by simp)]

theorem settings_intercalate (h : ∀ e ∈ es, IsEntry e) (hne : es ≠ []) :
    settings (", ".toList.intercalate es) = es.filterMap Setting.ofEntry? := by
  have hm := List.filterMap_map (f := Text.trim) (g := Setting.ofEntry?)
    (l := splitEntries 0 (", ".toList.intercalate es))
  rw [map_trim_splitEntries h hne] at hm
  exact hm.symm

/-! ### What entries make together -/

/-- The entries of an option list, without the blanks around them. -/
def entries (raw : List Char) : List (List Char) := (splitEntries 0 raw).map Text.trim

/-- The options that entries make together. -/
def ofEntries (entries : List (List Char)) : Options :=
  (entries.filterMap Setting.ofEntry?).foldl set {}

theorem ofText_eq (raw : List Char) : ofText raw = ofEntries (entries raw) := by
  rw [ofText, settings, ofEntries, entries, List.filterMap_map]
  rfl

theorem ofEntries_concat (entries : List (List Char)) (entry : List Char) :
    ofEntries (entries ++ [entry]) =
      ((Setting.ofEntry? entry).map (ofEntries entries).set).getD (ofEntries entries) := by
  rw [ofEntries, List.filterMap_append, List.foldl_append]
  cases hs : Setting.ofEntry? entry with
  | none =>
    rw [List.filterMap_cons_none hs]
    rfl
  | some s =>
    rw [List.filterMap_cons_some hs]
    rfl

end Options

namespace Setting

variable {key : String} {value : List Char}

theorem unbrace_eq (h : '{' ∉ value) : unbrace value = value := by
  unfold unbrace
  cases value with
  | nil => rfl
  | cons c cs =>
    have hc : '{' ≠ c := by
      rintro rfl
      exact h (List.mem_cons_self ..)
    simp [Text.after?, hc]

end Setting

theorem forall_mem_intercalate {p : Char → Prop} {es : List String} (hs : ∀ c ∈ ", ".toList, p c)
    (h : ∀ e ∈ es, ∀ c ∈ e.toList, p c) : ∀ c ∈ (", ".intercalate es).toList, p c := by
  rw [String.toList_intercalate]
  induction es with
  | nil => simp
  | cons e es ih =>
    obtain ⟨he, hes⟩ := List.forall_mem_cons.1 h
    cases es with
    | nil => simpa using he
    | cons e' es =>
      rw [List.map_cons, List.map_cons, List.intercalate_cons_cons, ← List.map_cons]
      intro c hc
      rcases List.mem_append.1 hc with hc | hc
      · exact (List.mem_append.1 hc).elim (he c) (hs c)
      · exact ih hes c hc

/-- A written entry and the setting that it makes. -/
structure Makes (cs : List Char) (x : Setting) : Prop where
  isEntry : IsEntry cs
  ofEntry? : Setting.ofEntry? cs = some x

/-- Keys of entries: not blank, and without the sign that ends a key. -/
structure IsKey (key : String) : Prop where
  isEntry : IsEntry key.toList
  equals_not_mem : '=' ∉ key.toList
  ne_nil : key.toList ≠ []

theorem Makes.ofKey {key : String} {cs value : List Char} {x : Setting} (hk : IsKey key)
    (hv : IsEntry value) (hvn : value ≠ []) (hcs : cs = key.toList ++ '=' :: value)
    (h : Setting.ofKey? key value = some x) : Makes cs x where
  isEntry := by
    have he : IsEntry ['='] := by decide
    rw [hcs]
    exact hk.isEntry.append (he.append hv (by simp) hvn) hk.ne_nil (by simp)
  ofEntry? := by
    rw [hcs, Setting.ofEntry?, Text.splitFirst?_append hk.equals_not_mem]
    simp only [hk.isEntry.trim_eq, hv.trim_eq, Setting.unbrace_eq hv.brace_not_mem,
      String.ofList_toList, h]

/-- Options in the order in which they are written, and the settings that they make. -/
abbrev Writes (es : List String) (xs : List Setting) : Prop :=
  List.Forall₂ (fun e x => Makes e.toList x) es xs

namespace Writes

variable {es fs : List String} {xs ys : List Setting}

theorem isEntry (h : Writes es xs) : ∀ e ∈ es, IsEntry e.toList := by
  induction h with
  | nil => simp
  | cons hm _ ih =>
    intro e he
    rcases List.mem_cons.1 he with rfl | he
    · exact hm.isEntry
    · exact ih e he

theorem append (h : Writes es xs) (h' : Writes fs ys) : Writes (es ++ fs) (xs ++ ys) := by
  induction h with
  | nil => exact h'
  | cons hm _ ih => exact .cons hm ih

theorem forall_mem {p : Char → Prop} (h : Writes es xs)
    (hp : ∀ c, Text.isPlain c = true → c ≠ ']' → p c) : ∀ c ∈ (", ".intercalate es).toList, p c := by
  have hsep : ∀ c ∈ ", ".toList, Text.isPlain c = true ∧ c ≠ ']' := by decide
  refine forall_mem_intercalate (fun c hc => hp c (hsep c hc).1 (hsep c hc).2) fun e he c hc => ?_
  apply hp c ((h.isEntry e he).isPlain c hc)
  rintro rfl
  exact (h.isEntry e he).bracket_not_mem hc

theorem splitBefore?_eq (h : Writes es xs) (rest : List Char) :
    Braces.splitBefore? ']' 0 ((", ".intercalate es).toList ++ ']' :: rest) =
      some ((", ".intercalate es).toList, ']' :: rest) := by
  apply Braces.splitBefore?_append_of_forall
  · refine h.forall_mem fun c hp hb => ?_
    have hne := Text.ne_of_isPlain hp
    exact ⟨hb, hne.1, hne.2.1, hne.2.2.1⟩
  · decide

theorem settings_eq (h : Writes es xs) (hne : es ≠ []) :
    Options.settings (", ".intercalate es).toList = xs := by
  rw [String.toList_intercalate, Options.settings_intercalate _ (by simpa using hne)]
  · clear hne
    induction h with
    | nil => rfl
    | cons hm _ ih => rw [List.map_cons, List.filterMap_cons_some hm.ofEntry?, ih]
  · intro e he
    obtain ⟨f, hf, rfl⟩ := List.mem_map.1 he
    exact h.isEntry f hf

end Writes

end Sketch
