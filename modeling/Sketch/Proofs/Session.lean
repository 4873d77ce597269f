import Mathlib.Data.List.Induction
import Sketch.Catalog
import Sketch.Session

/-!
Runs of an editing session. The guard is up only inside of an operation: whoever raises it asks for
the one rewriting that brings it down. So every text is kept by the operation that brings it, and
every edit of the scene reaches the code.
-/

namespace Sketch.Session

/-- What can be done to a session from outside. -/
inductive Operation
  | add (e : Element)
  | remove (id : ElementId)
  | preset (p : Preset)
  | clear
  | edit (text : String)
  | snippet (s : Snippet)
  | insert (code : String)
  | template (t : Template)
  | switchTab (t : Tab)
  | notify
  | tick
  | finish

/-- What an operation tells the caller. -/
inductive Answer
  | nothing
  | added (id : ElementId)
  | removed (p : Option Placed)
  | flag (b : Bool)
  | code (text : String)

def perform (s : Session) : Operation → Answer × Session
  | .add e => (s.add e).map .added id
  | .remove i => (s.remove i).map .removed id
  | .preset p => (.nothing, s.replace p.elements)
  | .clear => (.nothing, s.clear)
  | .edit text => (.nothing, s.edit text)
  | .snippet t => (.nothing, s.insert t.code)
  | .insert code => (.nothing, s.insert code)
  | .template t => (.nothing, s.edit t.code)
  | .switchTab t => (.nothing, s.switchTab t)
  | .notify => s.notify.map .flag id
  | .tick => s.tick.map .flag id
  | .finish => s.finish.map .code id

def answer (s : Session) (o : Operation) : Answer := (s.perform o).1

def after (s : Session) (o : Operation) : Session := (s.perform o).2

/-- The session after operations from a new one. -/
def run (os : List Operation) : Session := os.foldl after {}

variable {s : Session}

@[simp] theorem run_concat (os : List Operation) (o : Operation) :
    run (os ++ [o]) = (run os).after o := by
  rw [run, List.foldl_append, List.foldl_cons, List.foldl_nil, run]

/-- What a new session has and every operation keeps, all sessions have. -/
theorem run_induction {P : Session → Prop} (new : P {}) (step : ∀ s o, P s → P (s.after o))
    (os : List Operation) : P (run os) := by
  induction os using List.reverseRecOn with
  | nil => exact new
  | append_singleton os o ih =>
    rw [run_concat]
    exact step _ o ih

/-! ### The steps of an operation -/

theorem regenerate_eq (h : s.guarded = false) :
    s.regenerate = (true, { s with code := s.scene.code }) := by
  rw [regenerate, h]
  rfl

theorem sceneEdited_eq (h : s.guarded = false) :
    s.sceneEdited = { s with activity := .scene, code := s.scene.code } := by
  have ha : { s with activity := .scene }.guarded = false := h
  rw [sceneEdited, regenerate_eq ha]

/-- The guard turns the rewriting away that follows the text, and is down after it. -/
theorem takeText_eq (s : Session) (text : String) : s.takeText text =
    { s with
      guarded := false
      code := text
      activity := .text
      scene := (Document.ofText text).applyTo s.scene
      diagnostics := (Document.ofText text).diagnostics } := rfl

theorem tick_of_pending (h : s.pending = true) :
    s.tick = (true, { s with pending := false }.takeText s.code) := by
  rw [tick, h]
  rfl

theorem tick_of_not_pending (h : s.pending = false) : s.tick = (false, s) := by
  rw [tick, h]
  rfl

@[simp] theorem code_flush (s : Session) : s.flush.code = s.code := by
  cases h : s.pending with
  | true => rw [flush, tick_of_pending h, takeText_eq]
  | false => rw [flush, tick_of_not_pending h]

theorem guarded_flush (h : s.guarded = false) : s.flush.guarded = false := by
  cases hp : s.pending with
  | true => rw [flush, tick_of_pending hp, takeText_eq]
  | false => rw [flush, tick_of_not_pending hp, h]

@[simp] theorem pending_flush (s : Session) : s.flush.pending = false := by
  cases h : s.pending with
  | true => rw [flush, tick_of_pending h, takeText_eq]
  | false => rw [flush, tick_of_not_pending h, h]

theorem flush_of_not_pending (h : s.pending = false) : s.flush = s := by
  rw [flush, tick_of_not_pending h]

@[simp] theorem flush_flush (s : Session) : s.flush.flush = s.flush :=
  flush_of_not_pending (pending_flush s)

@[simp] theorem pending_regenerate (s : Session) : s.regenerate.2.pending = s.pending := by
  rw [regenerate]
  split
  · rfl
  · rfl

@[simp] theorem scene_regenerate (s : Session) : s.regenerate.2.scene = s.scene := by
  rw [regenerate]
  split
  · rfl
  · rfl

@[simp] theorem pending_sceneEdited (s : Session) : s.sceneEdited.pending = s.pending :=
  pending_regenerate _

@[simp] theorem scene_sceneEdited (s : Session) : s.sceneEdited.scene = s.scene :=
  scene_regenerate _

theorem remove_of_get?_eq_none {i : ElementId} (h : s.flush.scene.get? i = none) :
    s.remove i = (none, s.flush) := by
  rw [remove, h]

theorem remove_of_get?_eq_some {i : ElementId} {p : Placed} (h : s.flush.scene.get? i = some p) :
    s.remove i = (some p, sceneEdited { s.flush with scene := s.flush.scene.remove i }) := by
  rw [remove, h]

/-- What an operation makes of the code, and who drives the session then. -/
def Operation.Outcome (o : Operation) (before : Session) (a : Answer) (after : Session) : Prop :=
  match o with
  | .add _ | .preset _ | .clear => after.code = after.scene.code ∧ after.activity = .scene
  | .remove _ =>
    a = .removed none ∧ after.code = before.code ∨
      (∃ p, a = .removed (some p)) ∧ after.code = after.scene.code ∧ after.activity = .scene
  | .edit text => after.code = text
  | .template t => after.code = t.code
  | .snippet t => after.code = .ofList (Snippet.splice before.code.toList t.code.toList)
  | .insert code => after.code = .ofList (Snippet.splice before.code.toList code.toList)
  | .notify => a = .flag true ∧ after.code = after.scene.code
  | .switchTab _ | .tick | .finish => after.code = before.code

theorem outcome_sceneEdited (h : s.guarded = false) :
    s.sceneEdited.code = s.sceneEdited.scene.code ∧ s.sceneEdited.activity = .scene := by
  rw [sceneEdited_eq h]
  exact ⟨rfl, rfl⟩

theorem guarded_sceneEdited (h : s.guarded = false) : s.sceneEdited.guarded = false := by
  rw [sceneEdited_eq h, h]

/-- An operation leaves the guard down as it found it. -/
theorem guarded_after (h : s.guarded = false) (o : Operation) : (s.after o).guarded = false := by
  -- Whatever waits is read first, and reading it puts the guard down.
  have hf := guarded_flush h
  cases o with
  | add e => exact guarded_sceneEdited hf
  | remove i =>
    change (s.remove i).2.guarded = false
    rw [remove]
    cases s.flush.scene.get? i with
    | none => exact hf
    | some p => exact guarded_sceneEdited hf
  | preset p => exact guarded_sceneEdited hf
  | clear => exact guarded_sceneEdited hf
  | edit text => rfl
  | snippet t => exact hf
  | insert code => exact hf
  | template t => rfl
  | switchTab t => exact hf
  | notify =>
    change s.flush.regenerate.2.guarded = false
    rw [regenerate_eq hf, hf]
  | tick => exact hf
  | finish => exact hf

theorem outcome_after (h : s.guarded = false) (o : Operation) :
    o.Outcome s (s.answer o) (s.after o) := by
  have hf := guarded_flush h
  cases o with
  | add e => exact outcome_sceneEdited hf
  | remove i =>
    change (Answer.removed (s.remove i).1 = .removed none ∧ (s.remove i).2.code = s.code) ∨
      (∃ p, Answer.removed (s.remove i).1 = .removed (some p)) ∧
        (s.remove i).2.code = (s.remove i).2.scene.code ∧ (s.remove i).2.activity = .scene
    rw [remove]
    cases s.flush.scene.get? i with
    | none => exact .inl ⟨rfl, code_flush s⟩
    | some p => exact .inr ⟨⟨p, rfl⟩, outcome_sceneEdited hf⟩
  | preset p => exact outcome_sceneEdited hf
  | clear => exact outcome_sceneEdited hf
  | edit text => rfl
  | snippet t =>
    change String.ofList (Snippet.splice s.flush.code.toList t.code.toList) = _
    rw [code_flush]
  | insert code =>
    change String.ofList (Snippet.splice s.flush.code.toList code.toList) = _
    rw [code_flush]
  | template t => rfl
  | switchTab t => exact code_flush s
  | notify =>
    change Answer.flag s.flush.regenerate.1 = .flag true ∧
      s.flush.regenerate.2.code = s.flush.regenerate.2.scene.code
    rw [regenerate_eq hf]
    exact ⟨rfl, rfl⟩
  | tick => exact code_flush s
  | finish => exact code_flush s

theorem guarded_run (os : List Operation) : (run os).guarded = false :=
  run_induction (P := (·.guarded = false)) rfl (fun _ o h => guarded_after h o) os

/-- In every run and for every operation in it, the guard is down before and after it, a text is
kept as it came, an edit of the scene reaches the code, and nothing else touches the code. -/
theorem outcome_run (os : List Operation) (o : Operation) :
    (run os).guarded = false ∧ (run (os ++ [o])).guarded = false ∧
      o.Outcome (run os) ((run os).answer o) (run (os ++ [o])) := by
  refine ⟨guarded_run os, guarded_run _, ?_⟩
  rw [run_concat]
  exact outcome_after (guarded_run os) o

end Sketch.Session
