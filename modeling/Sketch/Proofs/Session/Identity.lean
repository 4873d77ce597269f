import Sketch.Proofs.Scene
import Sketch.Proofs.Session

/-!
The numbers of elements in a session. Whatever is done to a session reaches its scene through the
operations of scenes, a text that is read late included. So a number that was given out once removes
the element that it was given to, or nothing.
-/

namespace Sketch.Session

/-- What an operation does to the scene, once nothing waits to be read. -/
def Operation.onScene : Operation → List Scene.Operation
  | .add e => [.add e]
  | .remove i => [.remove i]
  | .preset p => [.replaceAll p.elements]
  | .clear => [.clear]
  | .edit text => [.apply (Document.ofText text)]
  | .template t => [.apply (Document.ofText t.code)]
  | _ => []

/-- What reading does to the scene. -/
def reading (s : Session) : List Scene.Operation :=
  if s.pending then [.apply (Document.ofText s.code)] else []

/-- What operations one after the other do to the scene. -/
def drawing (s : Session) : List Operation → List Scene.Operation
  | [] => []
  | o :: os => s.reading ++ o.onScene ++ drawing (s.after o) os

variable {s : Session} {i : ElementId} {p : Placed}

theorem scene_flush (s : Session) : s.flush.scene = s.reading.foldl Scene.after s.scene := by
  cases h : s.pending with
  | true =>
    rw [flush, tick_of_pending h, takeText_eq, reading, if_pos h]
    rfl
  | false =>
    rw [flush_of_not_pending h, reading, h]
    rfl

theorem answer_remove (s : Session) (i : ElementId) :
    s.answer (.remove i) = .removed (s.remove i).1 := rfl

theorem scene_after (s : Session) (o : Operation) :
    (s.after o).scene = o.onScene.foldl Scene.after s.flush.scene := by
  cases o with
  | add e => exact scene_sceneEdited _
  | remove i =>
    change (s.remove i).2.scene = s.flush.scene.remove i
    cases h : s.flush.scene.get? i with
    | none => rw [remove_of_get?_eq_none h, Scene.remove_eq_self h]
    | some p => rw [remove_of_get?_eq_some h, scene_sceneEdited]
  | preset p => exact scene_sceneEdited _
  | clear => exact scene_sceneEdited _
  | edit text => rfl
  | snippet t => rfl
  | insert text => rfl
  | template t => rfl
  | switchTab t => rfl
  | notify => exact scene_regenerate _
  | tick => rfl
  | finish => rfl

theorem scene_foldl_after (s : Session) (os : List Operation) :
    (os.foldl after s).scene = (drawing s os).foldl Scene.after s.scene := by
  induction os generalizing s with
  | nil => rfl
  | cons o os ih =>
    rw [List.foldl_cons, ih, scene_after, scene_flush, drawing, List.foldl_append,
      List.foldl_append]

theorem drawing_append (s : Session) (os ps : List Operation) :
    drawing s (os ++ ps) = drawing s os ++ drawing (os.foldl after s) ps := by
  induction os generalizing s with
  | nil => rfl
  | cons o os ih =>
    rw [List.cons_append, drawing, drawing, ih, List.foldl_cons]
    exact (List.append_assoc ..).symm

theorem scene_run (os : List Operation) : (run os).scene = Scene.run (drawing {} os) :=
  scene_foldl_after {} os

theorem identifies_scene (os ps : List Operation) :
    Scene.Identifies (Scene.given (drawing {} os)) (run os).scene (run (os ++ ps)).scene := by
  rw [scene_run, scene_run, drawing_append]
  exact Scene.identifies_run _ _

theorem mem_placed_add (s : Session) (e : Element) :
    ⟨s.flush.scene.nextId, e⟩ ∈ (s.after (.add e)).scene.placed := by
  rw [scene_after]
  exact List.mem_append_right _ (List.mem_singleton_self _)

/-- A number that was given to an element removes this element, or nothing. -/
theorem remove_given {os : List Operation} (ps : List Operation)
    (hp : p ∈ Scene.given (drawing {} os)) :
    ((run (os ++ ps)).remove p.id).1 = some p ∨
      (run (os ++ ps)).remove p.id = (none, (run (os ++ ps)).flush) := by
  -- The removal reads first what waits: its scene is that of the run with one more tick.
  cases h : (run (os ++ ps)).flush.scene.get? p.id with
  | none => exact .inr (remove_of_get?_eq_none h)
  | some q =>
    obtain ⟨hq, hi⟩ := Scene.mem_of_get? h
    have hf : run (os ++ (ps ++ [Operation.tick])) = (run (os ++ ps)).flush := by
      rw [← List.append_assoc, run_concat]
      rfl
    rw [← hf] at hq
    rw [remove_of_get?_eq_some h, (identifies_scene os _).named p hp q hq hi]
    exact .inl rfl

/-- However a scene is worked on, and in a session too, a number that was given to an element names
it for good: elements stand in the order of their numbers, which is that of their addition, and
what is removed by a number is the element that it was given to. -/
theorem identity_kept :
    (∀ os ps, Scene.Identifies (Scene.given os) (Scene.run os) (Scene.run (os ++ ps))) ∧
      ∀ os ps, (run os).scene = Scene.run (drawing {} os) ∧
        Scene.Identifies (Scene.given (drawing {} os)) (run os).scene (run (os ++ ps)).scene ∧
        (∀ e, ∃ i, (run os).answer (.add e) = .added i ∧
          ⟨i, e⟩ ∈ Scene.given (drawing {} (os ++ [Operation.add e]))) ∧
        ∀ p ∈ Scene.given (drawing {} os),
          (run (os ++ ps)).answer (.remove p.id) = .removed (some p) ∨
            (run (os ++ ps)).answer (.remove p.id) = .removed none ∧
              (run (os ++ ps)).after (.remove p.id) = (run (os ++ ps)).flush := by
  refine ⟨Scene.identifies_run, fun os ps => ⟨scene_run os, identifies_scene os ps, ?_, ?_⟩⟩
  · intro e
    have hm := mem_placed_add (run os) e
    rw [← run_concat] at hm
    exact ⟨_, rfl, (identifies_scene _ []).inserted.subset hm⟩
  · intro p hp
    rw [answer_remove]
    rcases remove_given ps hp with hr | hr
    · exact .inl (congrArg Answer.removed hr)
    · refine .inr ⟨?_, congrArg Prod.snd hr⟩
      rw [hr]

/-- A unit circle at the origin. -/
def disc : Element := { figure := .shape (.circle ⟨0, 0⟩ 1) }

/-- A text takes the place of the circle, which had the first number. -/
theorem identity_kept_replaced :
    ⟨⟨1⟩, disc⟩ ∈ Scene.given (drawing {} [.add disc]) ∧
      (run [.add disc, .edit "\\draw (0,0) -- (1,1);"]).scene.size = 1 ∧
      (run [.add disc]).answer (.remove ⟨1⟩) = .removed (some ⟨⟨1⟩, disc⟩) ∧
      (run [.add disc, .edit "\\draw (0,0) -- (1,1);"]).answer (.remove ⟨1⟩) = .removed none ∧
      (run [.add disc, .edit "\\draw (0,0) -- (1,1);"]).after (.remove ⟨1⟩) =
        (run [.add disc, .edit "\\draw (0,0) -- (1,1);"]).flush := by
  have hm : ⟨⟨1⟩, disc⟩ ∈ Scene.given (drawing {} [.add disc]) := List.mem_singleton_self _
  have hs : ((run [.add disc]).remove ⟨1⟩).1.isSome = true := by decide +kernel
  have hn : ((run [.add disc, .edit "\\draw (0,0) -- (1,1);"]).remove ⟨1⟩).1.isSome = false := by
    decide +kernel
  obtain ⟨-, hi⟩ := identity_kept
  obtain ⟨-, -, -, hdisc⟩ := hi [.add disc] []
  obtain ⟨-, -, -, hline⟩ := hi [.add disc] [.edit "\\draw (0,0) -- (1,1);"]
  refine ⟨hm, by decide +kernel, ?_, ?_⟩
  · rcases hdisc _ hm with ha | ⟨ha, -⟩
    · exact ha
    · have hr : ((run [.add disc]).remove ⟨1⟩).1 = none := Answer.removed.inj ha
      rw [hr] at hs
      contradiction
  · rcases hline _ hm with ha | ha
    · have hr : ((run [.add disc, .edit "\\draw (0,0) -- (1,1);"]).remove ⟨1⟩).1 =
          some ⟨⟨1⟩, disc⟩ := Answer.removed.inj ha
      rw [hr] at hn
      contradiction
    · exact ha

end Sketch.Session
