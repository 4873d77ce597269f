import Sketch.Proofs.Session

/-!
Snippets that wait to be read. Every operation reads first what waits, so a session cannot be told
from an eager one, in which a snippet is read as soon as it stands in the code: whatever waits in
the one session, reading it gives the other.
-/

namespace Sketch.Session

def Operation.isTick : Operation → Bool
  | .tick => true
  | _ => false

/-- Whether an operation leaves something to be read. -/
def Operation.isInsertion : Operation → Bool
  | .snippet _ | .insert _ => true
  | _ => false

/-- What the caller is told by operations one after the other, except by ticks. -/
def replies (perform : Session → Operation → Answer × Session) (s : Session) :
    List Operation → List Answer
  | [] => []
  | o :: os =>
    (if o.isTick then [] else [(perform s o).1]) ++ replies perform (perform s o).2 os

namespace Eager

/-- Puts a snippet into the code and reads it at once. -/
def insert (s : Session) (snippet : String) : Session :=
  s.takeText (.ofList (Snippet.splice s.code.toList snippet.toList))

/-- The operations of an eager session: those of any session, but for the insertions. -/
def perform (s : Session) : Operation → Answer × Session
  | .snippet t => (.nothing, insert s t.code)
  | .insert code => (.nothing, insert s code)
  | o => s.perform o

def after (s : Session) (o : Operation) : Session := (perform s o).2

/-- The eager session after operations from a new one. -/
def run (os : List Operation) : Session := os.foldl after {}

end Eager

variable (s : Session) (o : Operation) (os : List Operation)

/-- Only an insertion leaves something to be read. -/
theorem pending_after : (s.after o).pending = o.isInsertion := by
  cases o with
  | add e => exact (pending_sceneEdited _).trans (pending_flush s)
  | remove i =>
    change (s.remove i).2.pending = false
    cases h : s.flush.scene.get? i with
    | none =>
      rw [remove_of_get?_eq_none h]
      exact pending_flush s
    | some p =>
      rw [remove_of_get?_eq_some h]
      exact (pending_sceneEdited _).trans (pending_flush s)
  | preset p => exact (pending_sceneEdited _).trans (pending_flush s)
  | clear => exact (pending_sceneEdited _).trans (pending_flush s)
  | edit text => exact pending_flush s
  | snippet t => rfl
  | insert code => rfl
  | template t => exact pending_flush s
  | switchTab t => exact pending_flush s
  | notify => exact (pending_regenerate _).trans (pending_flush s)
  | tick => exact pending_flush s
  | finish => exact pending_flush s

/-- Whatever waits is read by every operation but a tick, which is the reading itself. -/
theorem perform_flush (h : o.isTick = false) : s.flush.perform o = s.perform o := by
  cases o with
  | add e => rw [perform, perform, add, add, flush_flush]
  | remove i => rw [perform, perform, remove, remove, flush_flush]
  | preset p => rw [perform, perform, replace, replace, flush_flush]
  | clear => rw [perform, perform, clear, clear, flush_flush]
  | edit text => rw [perform, perform, edit, edit, flush_flush]
  | snippet t => rw [perform, perform, insert, insert, flush_flush]
  | insert code => rw [perform, perform, insert, insert, flush_flush]
  | template t => rw [perform, perform, edit, edit, flush_flush]
  | switchTab t => rw [perform, perform, switchTab, switchTab, flush_flush]
  | notify => rw [perform, perform, notify, notify, flush_flush]
  | tick => contradiction
  | finish => rw [perform, perform, finish, finish, flush_flush]

theorem after_tick : s.after .tick = s.flush := rfl

theorem after_flush : s.flush.after o = s.after o := by
  cases h : o.isTick with
  | true =>
    cases o with
    | tick => exact flush_flush s
    | _ => contradiction
  | false => rw [after, after, perform_flush s o h]

theorem flush_insert (snippet : String) :
    (s.insert snippet).flush = Eager.insert s.flush snippet := by
  rw [flush, tick_of_pending rfl, insert, Eager.insert, takeText_eq, takeText_eq]
  simp only [pending_flush]

/-- What an operation leaves to be read, the eager operation has read already. -/
theorem flush_after : (s.after o).flush = Eager.after s.flush o := by
  -- After anything but an insertion nothing waits, and the two operations are the same one.
  cases h : o.isInsertion with
  | true =>
    cases o with
    | snippet t => exact flush_insert s t.code
    | insert code => exact flush_insert s code
    | _ => contradiction
  | false =>
    rw [flush_of_not_pending ((pending_after s o).trans h), ← after_flush]
    cases o with
    | snippet t => contradiction
    | insert code => contradiction
    | _ => rfl

theorem perform_eager (h : o.isTick = false) : (Eager.perform s.flush o).1 = (s.perform o).1 := by
  cases o with
  | snippet t => rfl
  | insert code => rfl
  | _ => exact congrArg Prod.fst (perform_flush s _ h)

theorem flush_foldl_after : (os.foldl after s).flush = os.foldl Eager.after s.flush := by
  induction os generalizing s with
  | nil => rfl
  | cons o os ih => rw [List.foldl_cons, List.foldl_cons, ih, flush_after]

theorem replies_flush : replies perform s os = replies Eager.perform s.flush os := by
  induction os generalizing s with
  | nil => rfl
  | cons o os ih =>
    have ht := ih (s.after o)
    rw [flush_after] at ht
    rw [replies, replies]
    cases h : o.isTick with
    | true => exact ht
    | false => exact congrArg₂ (fun a as => [a] ++ as) (perform_eager s o h).symm ht

/-- Ticks make no difference but for what waits in the end. -/
theorem flush_foldl_filter :
    ((os.filter (!·.isTick)).foldl after s).flush = (os.foldl after s).flush := by
  induction os generalizing s with
  | nil => rfl
  | cons o os ih =>
    cases o with
    | tick =>
      rw [List.filter_cons_of_neg (by decide), ih, List.foldl_cons, flush_foldl_after s,
        flush_foldl_after, after_tick, flush_flush]
    | _ =>
      rw [List.filter_cons_of_pos (by rfl), List.foldl_cons, List.foldl_cons]
      exact ih _

/-- In every run a session gives the answers of an eager one, in which nothing ever waits, and once
its last snippet is read it is the same session. Ticks only do what the next operation would do. -/
theorem deferral_unobservable (os : List Operation) :
    replies perform {} os = replies Eager.perform {} os ∧ (Eager.run os).pending = false ∧
      run (os ++ [Operation.tick]) = Eager.run os ∧
      run (os.filter (!·.isTick) ++ [Operation.tick]) = run (os ++ [Operation.tick]) ∧
      ∀ o ps, run (os ++ Operation.tick :: o :: ps) = run (os ++ o :: ps) := by
  have he : (run os).flush = Eager.run os := flush_foldl_after {} os
  refine ⟨replies_flush {} os, ?_, ?_, ?_, fun o ps => ?_⟩
  · rw [← he, pending_flush]
  · rw [run_concat, after_tick, he]
  · rw [run_concat, run_concat]
    exact flush_foldl_filter {} os
  · rw [run, run, List.foldl_append, List.foldl_append, List.foldl_cons, List.foldl_cons,
      List.foldl_cons, after_tick, after_flush]

end Sketch.Session
