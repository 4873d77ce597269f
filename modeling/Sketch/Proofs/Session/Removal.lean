import Sketch.Proofs.Session.Identity
import Sketch.Proofs.Session.Reflection

/-!
The removal of an element that is seen in the scene. A removal reads first what waits in the code,
and a text that shows anything takes the place of the whole scene, under new numbers. So an element
that is seen can be removed exactly if nothing waits, or if what waits leaves the scene alone.
-/

namespace Sketch.Session

/-- Whether the next operation leaves the scene as it is seen before it works on it. -/
def IsSettled (s : Session) : Prop :=
  s.pending = false ∨ (Document.ofText s.code).recognized = 0

/-- A session from which this element can be removed: the caller is given it, the scene keeps all
the others, and the code is written anew. -/
structure Removes (s : Session) (p : Placed) : Prop where
  returned : s.answer (.remove p.id) = .removed (some p)
  gone : ∀ q ∈ (s.after (.remove p.id)).scene.placed, q.id ≠ p.id
  kept : (s.after (.remove p.id)).scene = s.scene.remove p.id
  rewritten : (s.after (.remove p.id)).code = (s.after (.remove p.id)).scene.code

/-- A session that has put what its code shows in the place of its scene, and from which the element
is not removed any more. -/
structure Overdraws (s : Session) (p : Placed) : Prop where
  missed : s.answer (.remove p.id) = .removed none
  replaced : (s.after (.remove p.id)).scene =
    s.scene.replaceAll (Document.ofText s.code).elements
  renumbered : ∀ q ∈ (s.after (.remove p.id)).scene.placed, p.id.number < q.id.number
  unwritten : (s.after (.remove p.id)).code = s.code

variable {s : Session} {p : Placed}

theorem Overdraws.not_removes (h : s.Overdraws p) : ¬s.Removes p := by
  intro hr
  cases hr.returned.symm.trans h.missed

theorem scene_flush_of_isSettled (h : s.IsSettled) : s.flush.scene = s.scene := by
  cases hp : s.pending with
  | true =>
    have hn := h.resolve_left (by rw [hp]; exact Bool.noConfusion)
    rw [flush, tick_of_pending hp, takeText_eq]
    exact Document.applyTo_eq_self hn s.scene
  | false => rw [flush_of_not_pending hp]

theorem scene_flush_of_not_isSettled (h : ¬s.IsSettled) :
    s.flush.scene = s.scene.replaceAll (Document.ofText s.code).elements := by
  rw [IsSettled, not_or, Bool.not_eq_false] at h
  rw [flush, tick_of_pending h.1, takeText_eq]
  exact Document.applyTo_eq_replaceAll h.2 s.scene

theorem removes_of_isSettled (hg : s.guarded = false) (hs : s.IsSettled)
    (hp : s.scene.get? p.id = some p) : s.Removes p := by
  have hf := scene_flush_of_isSettled hs
  have hr := remove_of_get?_eq_some ((congrArg (Scene.get? · p.id) hf).trans hp)
  have hgf : { s.flush with scene := s.flush.scene.remove p.id }.guarded = false :=
    guarded_flush hg
  have ha : (s.after (.remove p.id)).scene = s.scene.remove p.id := by
    rw [scene_after, hf]
    rfl
  refine ⟨?_, ?_, ha, ?_⟩
  · rw [answer_remove, hr]
  · intro q hq
    rw [ha] at hq
    exact of_decide_eq_true (List.mem_filter.1 hq).2
  · change (s.remove p.id).2.code = (s.remove p.id).2.scene.code
    rw [hr]
    exact (outcome_sceneEdited hgf).1

theorem overdraws_of_not_isSettled (hs : ¬s.IsSettled) (hp : p.id.number ≤ s.scene.allocated) :
    s.Overdraws p := by
  have hf := scene_flush_of_not_isSettled hs
  have hlt : ∀ q ∈ s.flush.scene.placed, p.id.number < q.id.number := by
    rw [hf]
    exact fun q hq => Nat.lt_of_le_of_lt hp (Scene.lt_of_mem_replaceAll _ _ q hq)
  have hn : s.flush.scene.get? p.id = none := by
    rw [Scene.get?, List.find?_eq_none]
    intro q hq he
    exact Nat.ne_of_gt (hlt q hq) (congrArg ElementId.number (of_decide_eq_true he))
  have hr := remove_of_get?_eq_none hn
  have ha : s.after (.remove p.id) = s.flush := congrArg Prod.snd hr
  refine ⟨?_, ?_, ?_, ?_⟩
  · rw [answer_remove, hr]
  · rw [ha, hf]
  · rw [ha]
    exact hlt
  · rw [ha, code_flush]

/-- In every run, an element that is seen can be removed exactly if the session is settled. If it is
not, then the removal reads what waits, and misses the element, whose number is no longer there. -/
theorem removes_iff_isSettled (os : List Operation) (p : Placed) (hp : p ∈ (run os).scene.placed) :
    ((run os).Removes p ↔ (run os).IsSettled) ∧ (¬(run os).IsSettled → (run os).Overdraws p) := by
  have hh := Scene.holds_run (drawing {} os)
  rw [← scene_run] at hh
  have hn : p.id.number ≤ (run os).scene.allocated := by
    rw [hh.allocated]
    exact Scene.number_le_of_mem (hh.placed.subset hp)
  have hover := fun hs => overdraws_of_not_isSettled (s := run os) hs hn
  refine ⟨⟨fun hr => ?_, fun hs => ?_⟩, hover⟩
  · by_contra hs
    exact (hover hs).not_removes hr
  · exact removes_of_isSettled (guarded_run os) hs ((hh.get?_eq_some_iff p.id p).2 ⟨hp, rfl⟩)

/-- A circle is drawn, a note is typed over its code, and another one put in that waits. -/
def noted : List Operation := [.add disc, .edit "a note", .insert "another"]

theorem removes_noted : ⟨⟨1⟩, disc⟩ ∈ (run noted).scene.placed ∧ (run noted).pending = true ∧
    (run noted).Removes ⟨⟨1⟩, disc⟩ := by
  have hs : (run noted).scene = (run [.add disc]).scene :=
    Document.applyTo_eq_self (d := Document.ofText "a note") (by decide +kernel) _
  have hp : ⟨⟨1⟩, disc⟩ ∈ (run noted).scene.placed := by
    rw [hs]
    exact List.mem_singleton_self _
  have hn : (Document.ofText (run noted).code).recognized = 0 := by decide +kernel
  exact ⟨hp, rfl, (removes_iff_isSettled noted _ hp).1.2 (.inr hn)⟩

/-- A circle is drawn, and a line put into its code that waits to be read. -/
def overdrawn : List Operation := [.add disc, .insert "\\draw (0,0) -- (1,1);"]

/-- The circle is seen under the first number, and a removal by this number misses it: it is there
under the second one by then. -/
theorem not_removes_overdrawn : ⟨⟨1⟩, disc⟩ ∈ (run overdrawn).scene.placed ∧
    ¬(run overdrawn).Removes ⟨⟨1⟩, disc⟩ ∧ (run overdrawn).answer (.remove ⟨1⟩) = .removed none ∧
    ((run overdrawn).after (.remove ⟨1⟩)).scene.placed.map (·.id) = [⟨2⟩, ⟨3⟩] := by
  have hs : ¬(run overdrawn).IsSettled := by
    rw [IsSettled, not_or]
    exact ⟨by decide +kernel, by decide +kernel⟩
  have ho := overdraws_of_not_isSettled (p := ⟨⟨1⟩, disc⟩) hs (by decide +kernel)
  refine ⟨List.mem_singleton_self _, ho.not_removes, ho.missed, ?_⟩
  rw [ho.replaced]
  decide +kernel

end Sketch.Session
