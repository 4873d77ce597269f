import Sketch.Proofs.Session.Reflection

/-!
The text that a run has brought last. While a session is driven by its text, its code is this text,
until the scene's view gives a notice: then the code is written anew, and yet it is the text that is
said to drive.
-/

namespace Sketch.Session

/-- In a run, this text is what the last operation on the code has made of the code, and these
operations came after it. -/
def LastText (os : List Operation) (text : String) (since : List Operation) : Prop :=
  ∃ before o write, os = before ++ o :: since ∧ o.write? = some write ∧
    write (run before).code = text ∧ ∀ p ∈ since, p.write? = none

variable {os since since' : List Operation} {o : Operation} {text text' : String}
  {write : String → String}

namespace LastText

theorem of_write (h : o.write? = some write) : LastText (os ++ [o]) (write (run os).code) [] :=
  ⟨os, o, write, rfl, h, rfl, List.forall_mem_nil _⟩

theorem concat (h : LastText os text since) (ho : o.write? = none) :
    LastText (os ++ [o]) text (since ++ [o]) := by
  obtain ⟨before, q, write, rfl, hq, ht, hs⟩ := h
  refine ⟨before, q, write, List.append_assoc .., hq, ht, fun p hp => ?_⟩
  rcases List.mem_append.1 hp with hp | hp
  · exact hs p hp
  · rw [List.mem_singleton.1 hp, ho]

/-- The last operation of a run has brought the text, or came after the one that did. -/
theorem concat_cases (h : LastText (os ++ [o]) text since) :
    (∃ write, o.write? = some write ∧ text = write (run os).code ∧ since = []) ∨
      o.write? = none ∧ ∃ rest, since = rest ++ [o] ∧ LastText os text rest := by
  obtain ⟨before, q, write, hos, hq, ht, hs⟩ := h
  rcases List.eq_nil_or_concat' since with rfl | ⟨rest, p, rfl⟩
  · obtain ⟨rfl, ho⟩ := List.append_inj' hos rfl
    obtain rfl := List.singleton_inj.1 ho
    exact .inl ⟨write, hq, ht.symm, rfl⟩
  · rw [← List.cons_append, ← List.append_assoc] at hos
    obtain ⟨rfl, ho⟩ := List.append_inj' hos rfl
    obtain rfl := List.singleton_inj.1 ho
    refine .inr ⟨hs o (List.mem_append_right rest (List.mem_singleton_self o)), rest, rfl, ?_⟩
    exact ⟨before, q, write, rfl, hq, ht, fun r hr => hs r (List.mem_append_left _ hr)⟩

theorem unique (h : LastText os text since) (h' : LastText os text' since') :
    text = text' ∧ since = since' := by
  induction os using List.reverseRecOn generalizing since since' with
  | nil =>
    obtain ⟨before, q, write, hos, -⟩ := h
    exact absurd hos.symm (List.append_ne_nil_of_right_ne_nil before (List.cons_ne_nil q since))
  | append_singleton os o ih =>
    rcases h.concat_cases with ⟨w, hw, ht, hs⟩ | ⟨hw, rest, hs, h⟩
    · rcases h'.concat_cases with ⟨w', hw', ht', hs'⟩ | ⟨hw', -⟩
      · obtain rfl := Option.some.inj (hw.symm.trans hw')
        exact ⟨ht.trans ht'.symm, hs.trans hs'.symm⟩
      · cases hw.symm.trans hw'
    · rcases h'.concat_cases with ⟨w', hw', -⟩ | ⟨-, rest', hs', h'⟩
      · cases hw.symm.trans hw'
      · obtain ⟨ht, rfl⟩ := ih h h'
        exact ⟨ht, hs.trans hs'.symm⟩

end LastText

/-- The code of a session that is driven by a text: this text, or the code of the scene if there
was a notice since. -/
structure IsWritten (s : Session) (text : String) (since : List Operation) : Prop where
  kept : .notify ∉ since → s.code = text
  redrawn : .notify ∈ since → s.code = s.scene.code
  /-- What waits was put in by the last operation on the code. -/
  settled : .notify ∈ since → s.pending = false

theorem exists_lastText (os : List Operation) (h : (run os).activity = .text) :
    ∃ text since, LastText os text since ∧ (run os).IsWritten text since := by
  -- On the operations, the last one first. One on the code starts afresh; any other keeps both the
  -- text and what came after it, as long as it leaves the text in charge.
  induction os using List.reverseRecOn with
  | nil => contradiction
  | append_singleton os o ih =>
    have hs := isSteady_run os
    rw [run_concat] at h ⊢
    have he := effect_after hs.guarded o
    generalize (run os).after o = t at h he
    have hc := code_flush (run os)
    cases he with
    | drawn => contradiction
    | read write hw =>
      rw [hc]
      exact ⟨_, [], .of_write hw, fun _ => rfl, fun hn => by contradiction,
        fun hn => by contradiction⟩
    | put write hw =>
      rw [hc]
      exact ⟨_, [], .of_write hw, fun _ => rfl, fun hn => by contradiction,
        fun hn => by contradiction⟩
    | redrawn ho =>
      obtain ⟨text, since, hl, hw⟩ := ih (hs.activity_flush.symm.trans h)
      refine ⟨text, since ++ [o], hl.concat (ho ▸ rfl), fun hn => ?_, fun _ => rfl, fun _ => ?_⟩
      · exact absurd (List.mem_append_right since (ho ▸ List.mem_singleton_self o)) hn
      · exact pending_flush _
    | turned tab hd hw hn =>
      obtain ⟨text, since, hl, hi⟩ := ih (hs.activity_flush.symm.trans h)
      have hm : .notify ∈ since ++ [o] ↔ .notify ∈ since := by
        rw [List.mem_append, List.mem_singleton, or_iff_left hn.symm]
      refine ⟨text, since ++ [o], hl.concat hw, fun hq => ?_, fun hq => ?_, fun _ => ?_⟩
      · exact hc.trans (hi.kept (mt hm.2 hq))
      · have hq := hm.1 hq
        rw [flush_of_not_pending (hi.settled hq)]
        exact hi.redrawn hq
      · exact pending_flush _
    | finished => contradiction

/-- A session that is driven by its text has the last text that was brought, unless the scene's view
has given a notice since: then it has the code of its scene. -/
theorem code_eq_lastText_iff (os : List Operation) (h : (run os).activity = .text) :
    (∃ text since, LastText os text since) ∧ ∀ text since, LastText os text since →
      ((run os).code = text ↔ .notify ∉ since ∨ (run os).scene.code = text) ∧
        (.notify ∈ since → (run os).code = (run os).scene.code) := by
  obtain ⟨text, since, hl, hw⟩ := exists_lastText os h
  refine ⟨⟨text, since, hl⟩, fun text' since' hl' => ?_⟩
  obtain ⟨rfl, rfl⟩ := hl.unique hl'
  refine ⟨⟨fun hc => ?_, fun hc => ?_⟩, hw.redrawn⟩
  · by_cases hn : .notify ∈ since
    · exact .inr ((hw.redrawn hn).symm.trans hc)
    · exact .inl hn
  · rcases hc with hn | hs
    · exact hw.kept hn
    · by_cases hn : .notify ∈ since
      · exact (hw.redrawn hn).trans hs
      · exact hw.kept hn

/-- A line is typed, a label put into the code, and the tab switched. -/
def switched : List Operation :=
  [.edit "\\draw (0,0) -- (1,1);", .insert "\\node at (1,1) \x7bA\x7d;", .switchTab .code]

theorem code_switched : (run switched).activity = .text ∧
    LastText switched "\\draw (0,0) -- (1,1);\n  \\node at (1,1) \x7bA\x7d;\n"
      [.switchTab .code] ∧
    (run switched).code = "\\draw (0,0) -- (1,1);\n  \\node at (1,1) \x7bA\x7d;\n" := by
  have ha : (run switched).activity = .text := by decide +kernel
  have hl : LastText switched "\\draw (0,0) -- (1,1);\n  \\node at (1,1) \x7bA\x7d;\n"
      [.switchTab .code] := by
    refine ⟨[.edit _], .insert _, _, rfl, rfl, by decide +kernel, fun p hp => ?_⟩
    rw [List.mem_singleton.1 hp]
    rfl
  have hn : Operation.notify ∉ [Operation.switchTab .code] := fun hn => by
    cases List.mem_singleton.1 hn
  exact ⟨ha, hl, ((code_eq_lastText_iff switched ha).2 _ _ hl).1.2 (.inl hn)⟩

/-- A line is typed, and then the scene's view gives a notice. -/
def noticed : List Operation := [.edit "\\draw (0,0) -- (1,1);", .notify]

/-- Here the text is said to drive, and the code is none that was typed. -/
theorem not_lastText_noticed : (run noticed).activity = .text ∧
    (∃ text since, LastText noticed text since) ∧
    (∀ text since, LastText noticed text since → (run noticed).code ≠ text) ∧
    (run noticed).code = (run noticed).scene.code := by
  have hl : LastText noticed "\\draw (0,0) -- (1,1);" [.notify] := by
    refine ⟨[], .edit _, _, rfl, rfl, rfl, fun p hp => ?_⟩
    rw [List.mem_singleton.1 hp]
    rfl
  refine ⟨by decide +kernel, ⟨_, _, hl⟩, fun text since h => ?_, rfl⟩
  rw [(h.unique hl).1]
  decide +kernel

end Sketch.Session
