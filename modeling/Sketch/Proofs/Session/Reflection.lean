import Sketch.Proofs.Code.Document
import Sketch.Proofs.Session

/-!
What the scene of a session has to do with its code. Between two operations the code is the code of
the scene, or the scene is what the code shows, or the code shows nothing; and a session that is
driven by its scene has the code of it.
-/

namespace Sketch.Session

/-- What an operation makes of the code, if it is one on the code. -/
def Operation.write? : Operation → Option (String → String)
  | .edit text => some (fun _ => text)
  | .template t => some (fun _ => t.code)
  | .snippet t => some (fun code => .ofList (Snippet.splice code.toList t.code.toList))
  | .insert text => some (fun code => .ofList (Snippet.splice code.toList text.toList))
  | _ => none

/-- What an operation makes of the scene, if it is one on the scene. -/
def Operation.draw? (scene : Scene) : Operation → Option Scene
  | .add e => some (scene.add e)
  | .remove i => (scene.get? i).map fun _ => scene.remove i
  | .preset p => some (scene.replaceAll p.elements)
  | .clear => some scene.clear
  | _ => none

/-- What an operation does to a session in which nothing waits to be read: it works on the scene or
on the code, or it asks for the code of the scene, or it leaves both alone. -/
inductive Effect (s : Session) (o : Operation) : Session → Prop
  | drawn (scene : Scene) (h : o.draw? s.scene = some scene) :
      Effect s o { s with scene, activity := .scene, code := scene.code }
  | read (write : String → String) (h : o.write? = some write) :
      Effect s o (s.takeText (write s.code))
  | put (write : String → String) (h : o.write? = some write) :
      Effect s o { s with code := write s.code, activity := .text, pending := true }
  | redrawn (h : o = .notify) : Effect s o { s with code := s.scene.code }
  | turned (tab : Tab) (hd : o.draw? s.scene = none) (hw : o.write? = none) (hn : o ≠ .notify) :
      Effect s o { s with tab }
  | finished (h : o = .finish) : Effect s o { s with activity := .idle }

variable {s t : Session} {o : Operation}

theorem effect_sceneEdited (h : s.guarded = false) {scene : Scene}
    (hd : o.draw? s.scene = some scene) : Effect s o (sceneEdited { s with scene }) := by
  have hg : { s with scene }.guarded = false := h
  rw [sceneEdited_eq hg]
  exact .drawn scene hd

theorem effect_after (h : s.guarded = false) (o : Operation) : Effect s.flush o (s.after o) := by
  have hf := guarded_flush h
  cases o with
  | add e => exact effect_sceneEdited hf rfl
  | remove i =>
    change Effect s.flush (.remove i) (s.remove i).2
    cases hi : s.flush.scene.get? i with
    | none =>
      rw [remove_of_get?_eq_none hi]
      exact .turned s.flush.tab (congrArg (Option.map _) hi) rfl Operation.noConfusion
    | some p =>
      rw [remove_of_get?_eq_some hi]
      exact effect_sceneEdited hf (congrArg (Option.map _) hi)
  | preset p => exact effect_sceneEdited hf rfl
  | clear => exact effect_sceneEdited hf rfl
  | edit text =>
    change Effect s.flush (.edit text) (s.flush.takeText text)
    exact .read (fun _ => text) rfl
  | snippet t => exact .put (fun code => .ofList (Snippet.splice code.toList t.code.toList)) rfl
  | insert text => exact .put (fun code => .ofList (Snippet.splice code.toList text.toList)) rfl
  | template t =>
    change Effect s.flush (.template t) (s.flush.takeText t.code)
    exact .read (fun _ => t.code) rfl
  | switchTab t => exact .turned t rfl rfl Operation.noConfusion
  | notify =>
    change Effect s.flush .notify s.flush.regenerate.2
    rw [regenerate_eq hf]
    exact .redrawn rfl
  | tick => exact .turned s.flush.tab rfl rfl Operation.noConfusion
  | finish => exact .finished rfl

/-! ### The scene and the code -/

/-- The scene and the code of a session say the same, as far as the code says anything. -/
def Reflects (s : Session) : Prop :=
  s.code = s.scene.code ∨ (Document.ofText s.code).recognized = 0 ∨
    s.scene.elements = (Document.ofText s.code).elements

/-- A session that has read its code over this scene, and done nothing since. -/
structure HasRead (before : Scene) (s : Session) : Prop where
  diagnostics : s.diagnostics = (Document.ofText s.code).diagnostics
  kept : (Document.ofText s.code).recognized = 0 → s.scene = before

theorem hasRead_takeText (s : Session) (text : String) : (s.takeText text).HasRead s.scene := by
  rw [takeText_eq]
  exact ⟨rfl, fun h => Document.applyTo_eq_self h s.scene⟩

theorem reflects_takeText (s : Session) (text : String) : (s.takeText text).Reflects := by
  rw [takeText_eq]
  by_cases h : (Document.ofText text).recognized = 0
  · exact .inr (.inl h)
  · refine .inr (.inr ?_)
    change ((Document.ofText text).applyTo s.scene).elements = _
    rw [Document.applyTo_eq_replaceAll h, Scene.elements_replaceAll]

/-- What holds of a session between two operations. -/
structure IsSteady (s : Session) : Prop where
  guarded : s.guarded = false
  typing : s.pending = true → s.activity = .text
  drawing : s.activity = .scene → s.code = s.scene.code
  reflects : s.pending = false → s.Reflects

namespace IsSteady

theorem new : IsSteady {} := ⟨rfl, fun h => by contradiction, fun _ => rfl, fun _ => .inl rfl⟩

theorem activity_flush (h : s.IsSteady) : s.flush.activity = s.activity := by
  cases hp : s.pending with
  | true =>
    rw [h.typing hp, flush, tick_of_pending hp, takeText_eq]
  | false => rw [flush_of_not_pending hp]

/-- Reading what waits leaves a session steady. -/
theorem flush (h : s.IsSteady) : s.flush.IsSteady := by
  cases hp : s.pending with
  | true =>
    rw [Session.flush, tick_of_pending hp]
    exact ⟨rfl, fun _ => rfl, fun h => by contradiction, fun _ => reflects_takeText _ _⟩
  | false =>
    rw [flush_of_not_pending hp]
    exact h

theorem effect (h : s.IsSteady) (hp : s.pending = false) (he : Effect s o t) : t.IsSteady := by
  cases he with
  | drawn => exact ⟨h.guarded, fun hq => by simp [hp] at hq, fun _ => rfl, fun _ => .inl rfl⟩
  | read => exact ⟨rfl, fun _ => rfl, fun h => by contradiction, fun _ => reflects_takeText _ _⟩
  | put => exact ⟨h.guarded, fun _ => rfl, fun h => by contradiction, fun h => by contradiction⟩
  | redrawn => exact ⟨h.guarded, h.typing, fun _ => rfl, fun _ => .inl rfl⟩
  | turned => exact ⟨h.guarded, h.typing, h.drawing, h.reflects⟩
  | finished =>
    exact ⟨h.guarded, fun hq => by simp [hp] at hq, fun h => by contradiction, h.reflects⟩

theorem after (h : s.IsSteady) (o : Operation) : (s.after o).IsSteady :=
  h.flush.effect (pending_flush s) (effect_after h.guarded o)

end IsSteady

theorem isSteady_run (os : List Operation) : (run os).IsSteady :=
  run_induction .new (fun _ o h => h.after o) os

/-- In every run the scene reflects the code unless a snippet waits, and a session that is driven by
its scene has the code of the scene. The diagnostics are those of the text that was just read; if it
showed nothing, the scene is the one before the reading, with its numbers and its counter. -/
theorem reflects_run (os : List Operation) :
    ((run os).pending = false → (run os).Reflects) ∧
      ((run os).activity = .scene → (run os).code = (run os).scene.code) ∧
      (∀ text, (run (os ++ [Operation.edit text])).HasRead (run os).flush.scene) ∧
      (∀ t, (run (os ++ [Operation.template t])).HasRead (run os).flush.scene) ∧
      ((run os).answer .tick = .flag true →
        (run (os ++ [Operation.tick])).HasRead (run os).scene) := by
  have hs := isSteady_run os
  refine ⟨hs.reflects, hs.drawing, fun text => ?_, fun t => ?_, fun h => ?_⟩
  · rw [run_concat]
    exact hasRead_takeText _ _
  · rw [run_concat]
    exact hasRead_takeText _ _
  · rw [run_concat]
    cases hp : (run os).pending with
    | true =>
      change (run os).flush.HasRead (run os).scene
      rw [flush, tick_of_pending hp]
      exact hasRead_takeText { run os with pending := false } _
    | false =>
      have ha : (run os).answer .tick = .flag false := by
        change Answer.flag (run os).tick.1 = _
        rw [tick_of_not_pending hp]
      rw [ha] at h
      cases h

/-- A circle is drawn, and a label put into its code that waits to be read. -/
def labelled : List Operation :=
  [.add { figure := .shape (.circle ⟨0, 0⟩ 2) }, .insert "\\node at (1,1) \x7bA\x7d;"]

theorem reflects_labelled : (run labelled).answer .tick = .flag true ∧
    (run (labelled ++ [Operation.tick])).HasRead (run labelled).scene ∧
    (run (labelled ++ [Operation.tick])).pending = false ∧
    (run (labelled ++ [Operation.tick])).Reflects ∧
    (run (labelled ++ [Operation.tick])).scene.size = 2 ∧
    (Document.ofText (run (labelled ++ [Operation.edit "\\draw"])).code).recognized = 0 ∧
    (run (labelled ++ [Operation.edit "\\draw"])).scene = (run labelled).flush.scene ∧
    (run (labelled ++ [Operation.clear])).activity = .scene ∧
    (run (labelled ++ [Operation.clear])).code =
      (run (labelled ++ [Operation.clear])).scene.code := by
  have ha : (run labelled).answer .tick = .flag true := rfl
  have hp : (run (labelled ++ [Operation.tick])).pending = false := by decide +kernel
  have hn : (Document.ofText (run (labelled ++ [Operation.edit "\\draw"])).code).recognized = 0 := by
    decide +kernel
  have hd : (run (labelled ++ [Operation.clear])).activity = .scene := by decide +kernel
  obtain ⟨-, -, he, -, ht⟩ := reflects_run labelled
  obtain ⟨hr, -⟩ := reflects_run (labelled ++ [Operation.tick])
  obtain ⟨-, hc, -⟩ := reflects_run (labelled ++ [Operation.clear])
  exact ⟨ha, ht ha, hp, hr hp, by decide +kernel, hn, (he "\\draw").kept hn, hd, hc hd⟩

end Sketch.Session
