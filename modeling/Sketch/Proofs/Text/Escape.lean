import Sketch.Element
import Sketch.Proofs.Text.Braces

/-!
What escaping keeps. A text that may stand between the braces of a label is its own content, and every
content is such a text. The typeset text is that of the given one, with its line breaks read as spaces.
-/

namespace Sketch

namespace Braces

variable {depth : Nat} {c : Char} {cs : List Char}

/-! ### Braces by number -/

/-- From within `depth` braces, the text closes just these and those that it opens, and no start of it
closes more. -/
structure Nests (depth : Nat) (cs : List Char) : Prop where
  le : ∀ front, front <+: cs → front.count '}' ≤ front.count '{' + depth
  eq : cs.count '}' = cs.count '{' + depth

theorem nests_iff : Nests depth cs ↔
    (∀ front, front <+: cs → front.count '}' ≤ front.count '{' + depth) ∧
      cs.count '}' = cs.count '{' + depth :=
  ⟨fun h => ⟨h.le, h.eq⟩, fun h => ⟨h.1, h.2⟩⟩

/-- The starts of a text are the empty one, and those that have its first character. -/
theorem forall_prefix_cons {P : List Char → Prop} :
    (∀ front, front <+: c :: cs → P front) ↔ P [] ∧ ∀ front, front <+: cs → P (c :: front) := by
  constructor
  · exact fun h => ⟨h [] List.nil_prefix, fun front hf => h _ (List.cons_prefix_cons.2 ⟨rfl, hf⟩)⟩
  · rintro ⟨hnil, hcons⟩ front hf
    rcases List.prefix_cons_iff.1 hf with rfl | ⟨rest, rfl, hr⟩
    · exact hnil
    · exact hcons rest hr

theorem nests_nil : Nests depth [] ↔ depth = 0 := by
  rw [nests_iff]
  simp [eq_comm]

theorem nests_opening : Nests depth ('{' :: cs) ↔ Nests (depth + 1) cs := by
  rw [nests_iff, nests_iff, forall_prefix_cons]
  simp [Nat.add_right_comm, Nat.add_assoc]

theorem nests_closing : Nests depth ('}' :: cs) ↔ ∃ outer, depth = outer + 1 ∧ Nests outer cs := by
  constructor
  · intro h
    -- The brace alone is a start of the text.
    have hpos : 1 ≤ depth := by simpa using h.le ['}'] (List.prefix_append ['}'] cs)
    obtain ⟨outer, rfl⟩ := Nat.exists_eq_add_of_le' hpos
    rw [nests_iff, forall_prefix_cons] at h
    refine ⟨outer, rfl, fun front hf => ?_, ?_⟩
    · simpa [← Nat.add_assoc] using h.1.2 front hf
    · simpa [← Nat.add_assoc] using h.2
  · rintro ⟨outer, rfl, h⟩
    rw [nests_iff, forall_prefix_cons]
    refine ⟨⟨Nat.zero_le _, fun front hf => ?_⟩, ?_⟩
    · simpa [← Nat.add_assoc] using h.le front hf
    · simpa [← Nat.add_assoc] using h.eq

theorem nests_cons (ho : c ≠ '{') (hc : c ≠ '}') : Nests depth (c :: cs) ↔ Nests depth cs := by
  rw [nests_iff, nests_iff, forall_prefix_cons]
  simp [List.count_cons_of_ne, ho, hc]

theorem Balanced.nests (h : Balanced depth cs) : Nests depth (unescaped cs) := by
  induction h with
  | nil => exact nests_nil.2 rfl
  | escape c _ ih => rwa [unescaped_escape]
  | opening _ ih => rwa [unescaped_cons (by decide), nests_opening]
  | closing _ ih =>
    rw [unescaped_cons (by decide), nests_closing]
    exact ⟨_, rfl, ih⟩
  | cons hb ho hc _ ih => rwa [unescaped_cons hb, nests_cons ho hc]

/-- A text is balanced if the numbers of its unescaped braces say so and it ends outside an escape. -/
theorem balanced_iff : Balanced depth cs ↔ endsEscaped cs = false ∧ Nests depth (unescaped cs) := by
  refine ⟨fun h => ⟨h.endsEscaped_eq, h.nests⟩, ?_⟩
  rintro ⟨he, hn⟩
  induction cs using escapeInduction generalizing depth with
  | nil =>
    cases nests_nil.1 hn
    exact .nil
  | lone => contradiction
  | escape c cs ih =>
    rw [endsEscaped_escape] at he
    rw [unescaped_escape] at hn
    exact .escape c (ih he hn)
  | cons c cs hb ih =>
    rw [endsEscaped_cons hb] at he
    rw [unescaped_cons hb] at hn
    by_cases ho : c = '{'
    · subst ho
      exact .opening (ih he (nests_opening.1 hn))
    · by_cases hc : c = '}'
      · subst hc
        obtain ⟨outer, rfl, ho⟩ := nests_closing.1 hn
        exact .closing (ih he ho)
      · exact .cons hb ho hc (ih he ((nests_cons ho hc).1 hn))

/-! ### Contents -/

/-- What may stand between the braces of a label. -/
structure IsContent (cs : List Char) : Prop where
  feed_not_mem : '\n' ∉ cs
  return_not_mem : '\r' ∉ cs
  endsEscaped_eq : endsEscaped cs = false
  percent_not_mem : '%' ∉ unescaped cs
  nests : Nests 0 (unescaped cs)

theorem Balanced.safe (h : Balanced depth cs) (hp : '%' ∉ unescaped cs)
    (hb : ∀ c ∈ cs, c ≠ '\n' ∧ c ≠ '\r') : Safe depth cs := by
  have := safe_escapeWithin h.surplus_eq.ge
  rwa [h.escapeWithin_eq hp, map_unbreak_eq_self hb] at this

theorem isContent_iff : IsContent cs ↔ Safe 0 cs := by
  constructor
  · intro h
    refine (balanced_iff.2 ⟨h.endsEscaped_eq, h.nests⟩).safe h.percent_not_mem fun c hc => ⟨?_, ?_⟩
    · exact fun hn => h.feed_not_mem (hn ▸ hc)
    · exact fun hr => h.return_not_mem (hr ▸ hc)
  · intro h
    exact ⟨fun hn => (h.ne_break hn).1 rfl, fun hr => (h.ne_break hr).2 rfl, h.balanced.endsEscaped_eq,
      h.percent_not_mem, h.balanced.nests⟩

/-- Escaping changes just the texts that are no contents. -/
theorem escape_eq_self_iff : escape cs = cs ↔ IsContent cs := by
  rw [isContent_iff]
  refine ⟨fun h => ?_, Safe.escapeWithin_eq⟩
  rw [← h]
  exact safe_escape cs

/-! ### Typeset texts -/

/-- The text with its line breaks read as spaces, and a space for a last lone backslash to escape. -/
def onOneLine (cs : List Char) : List Char := cs.map unbreak ++ if endsEscaped cs then [' '] else []

theorem onOneLine_escape (c : Char) (cs : List Char) :
    onOneLine ('\\' :: c :: cs) = '\\' :: unbreak c :: onOneLine cs := by
  rw [onOneLine, endsEscaped_escape]
  rfl

theorem onOneLine_cons (hb : c ≠ '\\') (cs : List Char) :
    onOneLine (c :: cs) = unbreak c :: onOneLine cs := by
  rw [onOneLine, endsEscaped_cons hb]
  rfl

theorem plain_cons (hb : c ≠ '\\') (cs : List Char) : plain (c :: cs) = c :: plain cs := by
  rw [plain]
  intro d ds h
  exact absurd h hb

/-- The backslash before a percent sign or a brace is not seen. -/
theorem plain_mark (h : c = '%' ∨ c = '{' ∨ c = '}') (cs : List Char) :
    plain ('\\' :: c :: cs) = plain (c :: cs) := by
  have hb : c ≠ '\\' := by
    rintro rfl
    simp at h
  rw [plain, if_pos h, plain_cons hb]

/-- A brace reads alike with a partner and without one, so it does not matter how many are open. -/
theorem plain_escapeWithin (depth : Nat) (cs : List Char) :
    plain (escapeWithin depth cs) = plain (onOneLine cs) := by
  have hmark (c : Char) (hb : c ≠ '\\') (hc : unbreak c = c) {cs ds : List Char}
      (h : plain cs = plain (onOneLine ds)) : plain (c :: cs) = plain (onOneLine (c :: ds)) := by
    rw [onOneLine_cons hb, plain_cons hb, hc, plain_cons hb, h]
  fun_induction escapeWithin depth cs with
  | case1 => rfl
  | case2 => rfl
  | case3 depth c cs ih => rw [onOneLine_escape, plain, plain, ih]
  | case4 depth cs ih =>
    rw [plain_mark (.inl rfl)]
    exact hmark '%' (by decide) rfl ih
  | case5 depth cs _ ih => exact hmark '{' (by decide) rfl ih
  | case6 depth cs _ ih =>
    rw [plain_mark (.inr (.inl rfl))]
    exact hmark '{' (by decide) rfl ih
  | case7 cs ih =>
    rw [plain_mark (.inr (.inr rfl))]
    exact hmark '}' (by decide) rfl ih
  | case8 depth cs ih => exact hmark '}' (by decide) rfl ih
  | case9 depth c cs hl he hp ho hz hs ih =>
    have hb : c ≠ '\\' := by
      rintro rfl
      cases cs with
      | nil => exact hl rfl rfl
      | cons d ds => exact he d ds rfl rfl
    rw [onOneLine_cons hb, plain_cons (unbreak_ne (by decide) hb), plain_cons (unbreak_ne (by decide) hb), ih]

theorem plain_eq_self (h : '\\' ∉ cs) : plain cs = cs := by
  induction cs with
  | nil => rfl
  | cons c cs ih =>
    rw [List.mem_cons, not_or] at h
    rw [plain_cons (Ne.symm h.1), ih h.2]

theorem onOneLine_eq_self (h : ∀ c ∈ cs, c ≠ '\\' ∧ c ≠ '\n' ∧ c ≠ '\r') : onOneLine cs = cs := by
  induction cs with
  | nil => rfl
  | cons c cs ih =>
    obtain ⟨⟨hb, hn, hr⟩, hcs⟩ := List.forall_mem_cons.1 h
    rw [onOneLine_cons hb, unbreak_eq_self hn hr, ih hcs]

end Braces

namespace Label

open Braces (IsContent onOneLine)

/-- The content of a label may stand between braces, whatever the text was, and a text that may stand
there is its own content. Typeset, the content is the text on one line. -/
theorem content_projection (l : Label) :
    IsContent l.content.toList ∧
      (l.content = l.text ↔ IsContent l.text.toList) ∧
      Label.content { l with text := l.content } = l.content ∧
      l.plain = .ofList (Braces.plain (onOneLine l.text.toList)) ∧
      ((∀ c ∈ l.text.toList, c ≠ '\\' ∧ c ≠ '\n' ∧ c ≠ '\r') → l.plain = l.text) := by
  have hcontent : l.content.toList = Braces.escape l.text.toList := String.toList_ofList
  have hplain : l.plain = .ofList (Braces.plain (onOneLine l.text.toList)) := by
    rw [plain, hcontent, Braces.escape, Braces.plain_escapeWithin]
  refine ⟨?_, ?_, ?_, hplain, fun h => ?_⟩
  · rw [hcontent]
    exact Braces.isContent_iff.2 (Braces.safe_escape _)
  · rw [← Braces.escape_eq_self_iff, ← hcontent]
    exact String.toList_inj.symm
  · change String.ofList (Braces.escape l.content.toList) = l.content
    rw [hcontent, Braces.escape_escape]
    rfl
  · rw [hplain, Braces.onOneLine_eq_self h, Braces.plain_eq_self fun hm => (h _ hm).1 rfl,
      String.ofList_toList]

/-- A text with two braces that have no partner, and a comment. -/
def unfinished : Label := ⟨⟨0, 0⟩, "a\x7db % \x7bc\x7bd\x7d"⟩

theorem content_projection_unfinished :
    unfinished.content = "a\\\x7db \\% \\\x7bc\x7bd\x7d" ∧ unfinished.plain = unfinished.text :=
  ⟨by decide +kernel, unfinished.content_projection.2.2.2.2 (by decide)⟩

end Label

end Sketch
