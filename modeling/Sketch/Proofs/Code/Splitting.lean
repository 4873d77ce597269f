import Sketch.Proofs.Code.Entry

/-!
Where an option list is split. The splitter counts every brace, but the readers of a command, which
find the bracket behind the list, do not count braces that a backslash escapes. Both split at the same
commas exactly if the escaped braces before a comma never decide whether a brace is open there.
-/

namespace Sketch

namespace Options

open Braces (deepen unescaped endsEscaped)

variable {depth : Nat} {p q : List Char → Bool} {c : Char} {cs rest f : List Char}
  {es fs before after : List (List Char)}

/-- How many braces are open after a text. A closing brace without a partner closes nothing. -/
def opened (cs : List Char) : Nat := cs.foldl deepen 0

/-- Splits at the commas that the test lets pass, given the text before them. -/
def splitWhere (p : List Char → Bool) (before : List Char) : List Char → List (List Char)
  | [] => [[]]
  | c :: cs =>
    if c = ',' ∧ p before then [] :: splitWhere p (before ++ [c]) cs
    else consEntry c (splitWhere p (before ++ [c]) cs)

theorem opened_concat (cs : List Char) (c : Char) : opened (cs ++ [c]) = deepen (opened cs) c := by
  simp [opened]

theorem splitEntries_eq_splitWhere (before cs : List Char) :
    splitEntries (opened before) cs = splitWhere (opened · = 0) before cs := by
  induction cs generalizing before with
  | nil => rfl
  | cons c cs ih =>
    have hi := ih (before ++ [c])
    rw [opened_concat] at hi
    rw [splitEntries, splitWhere, ← hi]
    simp only [decide_eq_true_eq]
    split
    · next h => rw [h.1, h.2]; rfl
    · rfl

theorem splitWhere_ne_nil (p : List Char → Bool) (before cs : List Char) :
    splitWhere p before cs ≠ [] := by
  cases cs with
  | nil => exact List.cons_ne_nil _ _
  | cons c cs =>
    rw [splitWhere]
    split
    · exact List.cons_ne_nil _ _
    · cases splitWhere p (before ++ [c]) cs <;> exact List.cons_ne_nil _ _

theorem consEntry_inj (hes : es ≠ []) (hfs : fs ≠ []) : consEntry c es = consEntry c fs ↔ es = fs := by
  obtain ⟨e, es, rfl⟩ := List.exists_cons_of_ne_nil hes
  obtain ⟨f, fs, rfl⟩ := List.exists_cons_of_ne_nil hfs
  simp [consEntry]

theorem consEntry_ne_nil_cons (hes : es ≠ []) (fs : List (List Char)) :
    consEntry c es ≠ [] :: fs := by
  obtain ⟨e, es, rfl⟩ := List.exists_cons_of_ne_nil hes
  simp [consEntry]

/-- Two tests split a text in the same way exactly if they agree at its commas. -/
theorem splitWhere_eq_iff (before cs : List Char) :
    splitWhere p before cs = splitWhere q before cs ↔
      ∀ front back, cs = front ++ ',' :: back → p (before ++ front) = q (before ++ front) := by
  induction cs generalizing before with
  | nil => exact iff_of_true rfl fun front back h => by simp at h
  | cons c cs ih =>
    have hi := ih (before ++ [c])
    simp only [List.append_assoc, List.singleton_append] at hi
    rw [Text.forall_mark_cons (P := fun front => p (before ++ front) = q (before ++ front)), ← hi,
      List.append_nil, splitWhere, splitWhere]
    -- Where one test splits and the other does not, the first entry is empty on one side only.
    have hp := splitWhere_ne_nil p (before ++ [c]) cs
    have hq := splitWhere_ne_nil q (before ++ [c]) cs
    by_cases hc : c = ','
    · cases hpb : p before <;> cases hqb : q before
      · simp [consEntry_inj hp hq]
      · simp [hc, consEntry_ne_nil_cons (hc ▸ hp)]
      · simp [hc, (consEntry_ne_nil_cons (hc ▸ hq) _).symm]
      · simp [hc]
    · simp [hc, consEntry_inj hp hq]

/-! ### Putting entries together -/

/-- Entries as the splitter leaves them, if `depth` braces are open before the first one. None has a
comma outside braces, and all but the last close the braces that they open. -/
inductive IsSplit : (depth : Nat) → List (List Char) → Prop
  | last {depth : Nat} {e : List Char} (h : IsWhole depth e) : IsSplit depth [e]
  | cons {depth : Nat} {e : List Char} {es : List (List Char)} (h : IsWhole depth e)
    (hc : e.foldl deepen depth = 0) (hs : IsSplit 0 es) : IsSplit depth (e :: es)

theorem isSplit_splitEntries (depth : Nat) (cs : List Char) : IsSplit depth (splitEntries depth cs) := by
  induction cs generalizing depth with
  | nil => exact .last (.nil depth)
  | cons c cs ih =>
    rw [splitEntries]
    split
    · next h => exact .cons (.nil depth) h.2 (ih 0)
    · next h =>
      have hi := ih (deepen depth c)
      generalize splitEntries (deepen depth c) cs = es at hi
      cases hi with
      | last he => exact .last (he.cons h)
      | cons he hc hs => exact .cons (he.cons h) hc hs

namespace IsSplit

variable {e : List Char}

theorem splitEntries_intercalate (h : IsSplit depth es) : splitEntries depth ([','].intercalate es) = es := by
  induction h with
  | @last depth e h =>
    have hnil : splitEntries (e.foldl deepen depth) [] = [[]] := rfl
    have hs := h.splitEntries_append hnil
    rw [List.append_nil] at hs
    rw [List.intercalate_singleton, hs]
  | @cons depth e es h hc hs ih =>
    obtain ⟨f, fs, rfl⟩ : ∃ f fs, es = f :: fs := by
      cases hs with
      | last => exact ⟨_, [], rfl⟩
      | cons => exact ⟨_, _, rfl⟩
    have hr : splitEntries (e.foldl deepen depth) (',' :: [','].intercalate (f :: fs)) = [] :: f :: fs := by
      rw [hc, splitEntries, if_pos ⟨rfl, rfl⟩, ih]
    rw [List.intercalate_cons_cons, List.append_assoc, List.singleton_append, h.splitEntries_append hr,
      List.append_nil]

/-- An entry can be left out. -/
theorem remove (h : IsSplit 0 (before ++ e :: after)) (hne : before ++ after ≠ []) :
    IsSplit 0 (before ++ after) := by
  induction before with
  | nil =>
    cases h with
    | last => contradiction
    | cons _ _ hs => exact hs
  | cons b before ih =>
    generalize hes : before ++ e :: after = es at h ih
    rw [List.cons_append, hes] at h
    cases h with
    | last => simp at hes
    | cons hb hc hs =>
      by_cases hn : before ++ after = []
      · rw [List.cons_append, hn]
        exact .last hb
      · exact .cons hb hc (ih hs hn)

end IsSplit

theorem intercalate_splitEntries (depth : Nat) (cs : List Char) :
    [','].intercalate (splitEntries depth cs) = cs := by
  induction cs generalizing depth with
  | nil => rfl
  | cons c cs ih =>
    rw [splitEntries]
    split
    · next h =>
      obtain ⟨f, fs, hs⟩ := List.exists_cons_of_ne_nil (splitEntries_ne_nil 0 cs)
      have hi := ih 0
      rw [hs] at hi ⊢
      rw [List.intercalate_cons_cons, hi, h.1]
      rfl
    · obtain ⟨f, fs, hs⟩ := List.exists_cons_of_ne_nil (splitEntries_ne_nil (deepen depth c) cs)
      have hi := ih (deepen depth c)
      rw [hs] at hi ⊢
      rw [consEntry, ← hi]
      cases fs with
      | nil => simp
      | cons g gs => rw [List.intercalate_cons_cons, List.intercalate_cons_cons]; rfl

/-- A text is read by its entries. -/
theorem ofText_intercalate (h : es ≠ [] → IsSplit 0 es) :
    ofText ([','].intercalate es) = ofEntries (es.map Text.trim) := by
  rw [ofText_eq, entries]
  by_cases hes : es = []
  · rw [hes]
    rfl
  · rw [(h hes).splitEntries_intercalate]

/-! ### The rule of the readers -/

/-- Outside all braces, when escaped braces do not count. If `joined`, an escaped comma that stands
here belongs to the text around it. -/
def isOutside (joined : Bool) (before : List Char) : Bool :=
  opened (unescaped before) = 0 ∧ (joined → endsEscaped before = false)

theorem foldl_deepen_unescaped_of_splitBefore? {close : Char}
    (h : Braces.splitBefore? close depth cs = some (f, rest)) : (unescaped f).foldl deepen depth = 0 := by
  fun_induction Braces.splitBefore? close depth cs generalizing f with
  | case1 => contradiction
  | case2 => contradiction
  | case3 depth c cs ih =>
    obtain ⟨⟨i, r⟩, hi, he⟩ := Option.map_eq_some_iff.1 h
    cases he
    rw [Braces.unescaped_escape]
    exact ih hi
  | case4 depth c cs _ hd =>
    cases h
    exact hd.2
  | case5 depth c cs hb _ ih =>
    obtain ⟨⟨i, r⟩, hi, he⟩ := Option.map_eq_some_iff.1 h
    cases he
    rw [Braces.unescaped_cons hb]
    exact ih hi

theorem isOutside_of_splitBefore? {close : Char} (joined : Bool)
    (h : Braces.splitBefore? close 0 cs = some (f, rest)) : isOutside joined f = true := by
  have hd : opened (unescaped f) = 0 := foldl_deepen_unescaped_of_splitBefore? h
  have he := (Braces.endsEscaped_of_splitBefore? h).1
  simp [isOutside, hd, he]

theorem splitEntries_eq_iff (joined : Bool) (raw : List Char) :
    splitEntries 0 raw = splitWhere (isOutside joined) [] raw ↔
      ∀ before after, raw = before ++ ',' :: after →
        (opened before = 0 ↔ isOutside joined before = true) := by
  have hs : splitEntries 0 raw = splitWhere (opened · = 0) [] raw := splitEntries_eq_splitWhere [] raw
  rw [hs, splitWhere_eq_iff]
  refine forall_congr' fun before => forall_congr' fun after => imp_congr_right fun _ => ?_
  rw [List.nil_append, Bool.eq_iff_iff, decide_eq_true_eq]

/-- The bracket by which an option list is found lies outside all braces. By the same rule, the commas
outside all braces are those at which the list is split, exactly if this holds at each comma: a brace
is open when escaped braces count, as they do for the splitter, or the comma lies outside, and not
both. An escaped comma may be taken for a separator or not. -/
theorem splits_alike_iff {line raw rest : List Char}
    (h : Braces.splitBefore? ']' 0 line = some (raw, rest)) (joined : Bool) :
    isOutside joined raw = true ∧
      (splitEntries 0 raw = splitWhere (isOutside joined) [] raw ↔
        ∀ before after, raw = before ++ ',' :: after →
          (opened before = 0 ↔ isOutside joined before = true)) :=
  ⟨isOutside_of_splitBefore? joined h, splitEntries_eq_iff joined raw⟩

/-- An option list with a pair of escaped braces before its comma. -/
def paired : List Char := "label=\\\x7b\\\x7d, dashed".toList

theorem splits_alike_paired :
    Braces.splitBefore? ']' 0 (paired ++ "] (0,0)".toList) = some (paired, "] (0,0)".toList) ∧
      isOutside true paired = true ∧ ∀ before after, paired = before ++ ',' :: after →
        (opened before = 0 ↔ isOutside true before = true) := by
  have h : Braces.splitBefore? ']' 0 (paired ++ "] (0,0)".toList) = some (paired, "] (0,0)".toList) := by
    decide +kernel
  obtain ⟨hout, hiff⟩ := splits_alike_iff h true
  exact ⟨h, hout, hiff.1 (by decide +kernel)⟩

/-- An option list with a single escaped brace before its comma. -/
def unpaired : List Char := "label=\\\x7b, dashed".toList

/-- The splitter takes the brace for one that stays open, and the entry behind the comma is lost. -/
theorem not_splits_alike_unpaired :
    Braces.splitBefore? ']' 0 (unpaired ++ "] (0,0)".toList) = some (unpaired, "] (0,0)".toList) ∧
      splitEntries 0 unpaired = [unpaired] ∧ (ofText unpaired).lineStyle = none ∧
      ∀ joined, splitWhere (isOutside joined) [] unpaired =
        ["label=\\\x7b".toList, " dashed".toList] := by
  decide +kernel

end Options

end Sketch
