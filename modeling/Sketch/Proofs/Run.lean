import Sketch.Proofs.Readers
import Sketch.Proofs.Preview.Grid
import Sketch.Proofs.Rendering
import Sketch.Run.Disk

/-!
Runs that fail. A run first looks: it reads its settings and its input, and checks them. What goes wrong
then goes wrong before anything is written. After that it only writes, first the code and then the
picture, and nothing but a write can fail, because the settings that were checked suffice for every scene.
-/

namespace Sketch

/-- A problem with the settings, or with a file that is read. -/
def Problem.IsEarly : Problem → Prop
  | .unreadable _ | .config _ | .picture (.setting _) => True
  | .unwritable _ | .picture (.unwritable _) => False

namespace Disk

open Run

variable {α β : Type} {d e : Disk} {a : α} {p : Problem} {path text source : String} {c : Config}
  {places : Places} {arguments : Arguments} {explicit : Option String} {x : Step (StateM Disk) α}
  {f : α → Step (StateM Disk) β}

/-! ### Steps on a disk -/

theorem perform_bind_of_ok (h : d.perform x = (some (.ok a), e)) :
    d.perform (x >>= f) = e.perform (f a) := by
  unfold perform at h ⊢
  rw [ExceptT.run_bind, OptionT.run_bind, Option.elimM, StateT.run_bind, h]
  rfl

theorem perform_bind_of_error (h : d.perform x = (some (.error p), e)) :
    d.perform (x >>= f) = (some (.error p), e) := by
  unfold perform at h ⊢
  rw [ExceptT.run_bind, OptionT.run_bind, Option.elimM, StateT.run_bind, h]
  rfl

theorem perform_liftM (d : Disk) (y : StateM Disk α) :
    d.perform (liftM y) = (some (.ok (y.run d).1), (y.run d).2) := rfl

/-! ### Steps that look -/

/-- The step leaves the disk as it is. It ends with a result of which `P` holds, or with an early
problem. -/
def Looks (d : Disk) (x : Step (StateM Disk) α) (P : α → Prop) : Prop :=
  (∃ a, d.perform x = (some (.ok a), d) ∧ P a) ∨ ∃ p, d.perform x = (some (.error p), d) ∧ p.IsEarly

namespace Looks

variable {P : α → Prop} {Q : β → Prop}

theorem pure (h : P a) : d.Looks (Pure.pure a) P := .inl ⟨a, rfl, h⟩

theorem throw (h : p.IsEarly) : d.Looks (MonadExcept.throw p) P := .inr ⟨p, rfl, h⟩

theorem liftM {y : StateM Disk α} (h : (y.run d).2 = d) : d.Looks (liftM y) (· = (y.run d).1) := by
  refine .inl ⟨_, ?_, rfl⟩
  rw [perform_liftM, h]

theorem bind (hx : d.Looks x P) (hf : ∀ a, P a → d.Looks (f a) Q) : d.Looks (x >>= f) Q := by
  rcases hx with ⟨a, hx, ha⟩ | ⟨p, hx, hp⟩
  · rw [Looks, perform_bind_of_ok hx]
    exact hf a ha
  · exact .inr ⟨p, perform_bind_of_error hx, hp⟩

end Looks

theorem perform_read (h : d.text? path = some text) :
    d.perform (read path) = (some (.ok text), d) := by
  have hread : d.perform (liftM (Host.read? path : StateM Disk (Option String))) =
      (some (.ok (some text)), d) := by
    rw [perform_liftM, ← h]
    rfl
  exact perform_bind_of_ok hread

theorem looks_read (d : Disk) (path : String) :
    d.Looks (read path) fun text => d.text? path = some text := by
  refine Looks.bind (.liftM rfl) fun text? h => ?_
  cases text? with
  | none => exact .throw trivial
  | some text => exact .pure h.symm

theorem run_configPath? (d : Disk) (places : Places) (explicit : Option String) :
    ((configPath? places explicit : StateM Disk (Option String)).run d).2 = d := by
  cases explicit with
  | some path => rfl
  | none =>
    change ((if (d.file? places.here).isSome = true then _ else _ : StateM Disk _).run d).2 = d
    split
    · rfl
    · cases places.home with
      | none => rfl
      | some path => rfl

/-! ### Steps that write -/

/-- The disk after an attempt to hand out code. -/
def handOut (d : Disk) (code : String) : Option String → Disk
  | some path => d.write path code
  | none => d.print code

/-- A write that the arguments ask for and that is not possible, and the disk that it leaves. The picture
comes after the code. -/
inductive FailsToWrite (d : Disk) (arguments : Arguments) : Problem → Disk → Prop
  | code {path code : String} : arguments.output = some path → d.writable path = false →
    FailsToWrite d arguments (.unwritable path) (d.write path code)
  | shown {code : String} : arguments.output = none → d.printable = false →
    FailsToWrite d arguments (.unwritable standardOutput) (d.print code)
  | picture {path code document : String} : arguments.picture = some path → d.writable path = false →
    FailsToWrite d arguments (.picture (.unwritable path))
      ((d.handOut code arguments.output).write path document)

/-- The files are as they were, and nothing more has been printed. -/
def Keeps (d after : Disk) : Prop := after.file? = d.file? ∧ after.printed = d.printed

theorem FailsToWrite.not_isEarly (h : d.FailsToWrite arguments p e) : ¬p.IsEarly := by
  cases h with
  | code | shown | picture => exact id

/-- What cannot be written stays as it is. -/
theorem FailsToWrite.keeps (h : d.FailsToWrite arguments p e)
    (hp : ∀ path, p ≠ .picture (.unwritable path)) : d.Keeps e := by
  cases h with
  | code _ hw =>
    rw [write, hw]
    exact ⟨rfl, rfl⟩
  | shown _ hs =>
    rw [print, hs]
    exact ⟨rfl, rfl⟩
  | @picture path => exact absurd rfl (hp path)

theorem writable_write (d : Disk) (path text : String) : (d.write path text).writable = d.writable := by
  unfold write
  dsimp only
  split
  · rfl
  · rfl

theorem writable_print (d : Disk) (text : String) : (d.print text).writable = d.writable := by
  unfold print
  split
  · rfl
  · rfl

theorem writable_handOut (d : Disk) (code : String) (output? : Option String) :
    (d.handOut code output?).writable = d.writable := by
  cases output? with
  | some path => exact writable_write d path code
  | none => exact writable_print d code

theorem file?_write (h : d.writable path = true) : (d.write path text).file? path = some text := by
  rw [write, h]
  exact if_pos rfl

theorem perform_unless (d : Disk) (possible : Bool) (p : Problem) :
    d.perform (if possible then Pure.pure () else throw p : Step (StateM Disk) Unit) =
      (some (if possible then .ok () else .error p), d) := by
  cases possible with
  | true => rfl
  | false => rfl

theorem perform_write (d : Disk) (path text : String) (p : Problem) :
    d.perform (Run.write path text p) =
      (some (if d.writable path then .ok () else .error p), d.write path text) :=
  (perform_bind_of_ok (perform_liftM ..)).trans (perform_unless ..)

theorem perform_handOut_none (d : Disk) (code : String) : d.perform (Run.handOut code none) =
    (some (if d.printable then .ok () else .error (.unwritable standardOutput)), d.print code) :=
  (perform_bind_of_ok (perform_liftM ..)).trans (perform_unless ..)

theorem handOut_cases (d : Disk) (arguments : Arguments) (code : String) :
    d.perform (Run.handOut code arguments.output) = (some (.ok ()), d.handOut code arguments.output) ∨
      ∃ p after, d.perform (Run.handOut code arguments.output) = (some (.error p), after) ∧
        d.FailsToWrite arguments p after := by
  cases ho : arguments.output with
  | some path =>
    have hrun := perform_write d path code (.unwritable path)
    cases hw : d.writable path with
    | true => exact .inl (hrun.trans (by rw [hw]; rfl))
    | false => exact .inr ⟨_, _, hrun.trans (by rw [hw]; rfl), .code ho hw⟩
  | none =>
    have hrun := perform_handOut_none d code
    cases hp : d.printable with
    | true => exact .inl (hrun.trans (by rw [hp]; rfl))
    | false => exact .inr ⟨_, _, hrun.trans (by rw [hp]; rfl), .shown ho hp⟩

section Readers

variable [Readers]

/-! ### Settings -/

theorem looks_readConfig (d : Disk) (path : String) : d.Looks (readConfig path) fun _ => True := by
  refine Looks.bind (.liftM rfl) fun there _ => ?_
  cases there with
  | false => exact .throw trivial
  | true =>
    refine (looks_read d path).bind fun text _ => ?_
    cases Config.ofText? text with
    | none => exact .throw trivial
    | some c => exact .pure trivial

theorem looks_findConfig (d : Disk) (places : Places) (explicit : Option String) :
    d.Looks (findConfig places explicit) fun _ => True := by
  refine Looks.bind (.liftM (run_configPath? ..)) fun path? _ => ?_
  cases path? with
  | none => exact .pure trivial
  | some path => exact looks_readConfig d path

theorem looks_loadConfig (d : Disk) (places : Places) (explicit : Option String) :
    d.Looks (loadConfig places explicit) fun c => c.validate = .ok () := by
  refine (looks_findConfig d places explicit).bind fun c _ => ?_
  cases hvalid : c.validate with
  | ok => exact .pure hvalid
  | error cause => exact .throw trivial

theorem perform_readConfig (htext : d.text? path = some text) (hc : Config.ofText? text = some c) :
    d.perform (readConfig path) = (some (.ok c), d) := by
  have hthere : (d.file? path).isSome = true := by
    unfold text? at htext
    split at htext
    · rw [htext]
      rfl
    · contradiction
  have hexists : d.perform (liftM (Host.exists? path : StateM Disk Bool)) = (some (.ok true), d) := by
    rw [perform_liftM, ← hthere]
    rfl
  refine (perform_bind_of_ok hexists).trans ((perform_bind_of_ok (perform_read htext)).trans ?_)
  rw [hc]
  rfl

theorem perform_loadConfig (hc : d.perform (findConfig places explicit) = (some (.ok c), d))
    (hvalid : c.validate = .ok ()) : d.perform (loadConfig places explicit) = (some (.ok c), d) := by
  refine (perform_bind_of_ok hc).trans ?_
  rw [hvalid]
  rfl

/-- Without a file of settings a run has the defaults, and so it has with an empty one. -/
theorem perform_loadConfig_default [Readers.Lawful]
    (h : ((configPath? places explicit : StateM Disk (Option String)).run d).1 = none ∨
      ∃ path, explicit = some path ∧ d.text? path = some "") :
    d.perform (loadConfig places explicit) = (some (.ok {}), d) := by
  refine perform_loadConfig ?_ (Config.validate_eq_ok_iff_isValid.2 Config.isValid_default)
  rcases h with h | ⟨path, rfl, htext⟩
  · have hpath : d.perform (liftM (configPath? places explicit : StateM Disk (Option String))) =
        (some (.ok none), d) := by
      rw [perform_liftM, h, run_configPath?]
    exact perform_bind_of_ok hpath
  · exact perform_readConfig htext Readers.Lawful.config?_empty

theorem validate_of_loadConfig (hc : d.perform (loadConfig places explicit) = (some (.ok c), d)) :
    c.validate = .ok () := by
  rcases looks_loadConfig d places explicit with ⟨c', hc', hvalid⟩ | ⟨p, hp, -⟩
  · rw [hc] at hc'
    obtain rfl := Except.ok.inj (Option.some.inj (congrArg Prod.fst hc'))
    exact hvalid
  · rw [hc] at hp
    cases hp

/-! ### Runs -/

/-- With these settings the preview of this source has a grid whose lines never end. -/
def IsEndless (c : Config) (source : String) : Prop :=
  ∃ v, c.viewport.toViewport = .ok v ∧ (Session.edit {} source).scene.IsEndless v

/-- The picture is drawn, or it is not possible to write it. -/
theorem draw_cases (d : Disk) (arguments : Arguments) (code : String) (preview : Preview)
    (hc : ∃ paint, c.paint = .ok paint) :
    let after := d.handOut code arguments.output
    (∃ last, after.perform (Run.draw preview c arguments.picture) = (some (.ok ()), last)) ∨
      ∃ p last, after.perform (Run.draw preview c arguments.picture) = (some (.error p), last) ∧
        d.FailsToWrite arguments p last := by
  cases hp : arguments.picture with
  | none => exact .inl ⟨_, rfl⟩
  | some path =>
    obtain ⟨paint, hpaint⟩ := hc
    have hdocument : preview.document c = .ok (Svg.ofPreview paint preview).write :=
      bind_eq_ok_iff.2 ⟨paint, hpaint, rfl⟩
    have hrun := perform_write (d.handOut code arguments.output) path
      (Svg.ofPreview paint preview).write (.picture (.unwritable path))
    rw [writable_handOut] at hrun
    unfold Run.draw
    dsimp only
    rw [hdocument]
    cases hw : d.writable path with
    | true => exact .inl ⟨_, hrun.trans (by rw [hw]; rfl)⟩
    | false => exact .inr ⟨_, _, hrun.trans (by rw [hw]; rfl), .picture hp hw⟩

/-- With settings that suffice nothing but a write fails. -/
theorem carryOut_cases (d : Disk) (arguments : Arguments) (hc : c.Suffices) (source : String) :
    (∃ report after, d.perform (carryOut arguments c source) = (some (.ok report), after)) ∨
    (∃ p after, d.perform (carryOut arguments c source) = (some (.error p), after) ∧
      d.FailsToWrite arguments p after) ∨
    ((d.perform (carryOut arguments c source)).1 = none ∧ IsEndless c source) := by
  obtain ⟨v, preview?, hv, hpreview, hsome⟩ := hc.previews (Session.edit {} source).scene
  rcases handOut_cases d arguments (Session.edit {} source).notify.2.finish.1 with
    hhand | ⟨p, after, hhand, hfails⟩
  · have hlook (e : Disk) : e.perform (liftM ((Session.edit {} source).scene.preview c)) =
        (some (.ok preview?), e) := by
      rw [hpreview]
      rfl
    cases preview? with
    | none =>
      have hrun : d.perform (carryOut arguments c source) = (none, _) :=
        (perform_bind_of_ok hhand).trans (perform_bind_of_ok (hlook _))
      refine .inr (.inr ⟨congrArg Prod.fst hrun, v, hv, ?_⟩)
      by_contra h
      obtain ⟨preview, hn⟩ := hsome h
      contradiction
    | some preview =>
      rcases draw_cases d arguments (Session.edit {} source).notify.2.finish.1 preview hc.paints with
        ⟨last, hdraw⟩ | ⟨p, last, hdraw, hfails⟩
      · exact .inl ⟨_, last, (perform_bind_of_ok hhand).trans
          ((perform_bind_of_ok (hlook _)).trans (perform_bind_of_ok hdraw))⟩
      · exact .inr (.inl ⟨p, last, (perform_bind_of_ok hhand).trans
          ((perform_bind_of_ok (hlook _)).trans (perform_bind_of_error hdraw)), hfails⟩)
  · exact .inr (.inl ⟨p, after, perform_bind_of_error hhand, hfails⟩)

/-- With its settings and its input a run goes on to write. -/
theorem run_eq_carryOut (hc : d.perform (loadConfig places arguments.config) = (some (.ok c), d))
    (hs : d.text? arguments.input = some source) :
    d.run places arguments = d.perform (carryOut arguments c source) :=
  (perform_bind_of_ok hc).trans (perform_bind_of_ok (perform_read hs))

/-- A run ends early and leaves the disk as it is, or it has its settings and its input. -/
theorem run_cases (d : Disk) (places : Places) (arguments : Arguments) :
    (∃ p, p.IsEarly ∧ d.run places arguments = (some (.error p), d)) ∨
      ∃ c source, d.perform (loadConfig places arguments.config) = (some (.ok c), d) ∧
        d.text? arguments.input = some source := by
  rcases looks_loadConfig d places arguments.config with ⟨c, hc, -⟩ | ⟨p, hp, hearly⟩
  · rcases looks_read d arguments.input with ⟨source, -, hs⟩ | ⟨p, hp, hearly⟩
    · exact .inr ⟨c, source, hc, hs⟩
    · exact .inl ⟨p, hearly, (perform_bind_of_ok hc).trans (perform_bind_of_error hp)⟩
  · exact .inl ⟨p, hearly, perform_bind_of_error hp⟩

/-- With its settings and its input a run fails only because of a write, and it ends unless the lines of a
grid never do. -/
theorem run_of_settings (hc : d.perform (loadConfig places arguments.config) = (some (.ok c), d))
    (hs : d.text? arguments.input = some source) :
    (∀ p after, d.run places arguments = (some (.error p), after) → d.FailsToWrite arguments p after) ∧
      (¬IsEndless c source → (d.run places arguments).1 ≠ none) := by
  have hsuffices := Config.suffices_iff.2 (validate_of_loadConfig hc)
  rw [run_eq_carryOut hc hs]
  rcases carryOut_cases d arguments hsuffices source with
    ⟨report, last, hrun⟩ | ⟨p, last, hrun, hfails⟩ | ⟨hrun, hendless⟩
  · rw [hrun]
    exact ⟨nofun, fun _ => nofun⟩
  · rw [hrun]
    refine ⟨fun q after h => ?_, fun _ => nofun⟩
    cases h
    exact hfails
  · refine ⟨fun q after h => ?_, fun h => absurd hendless h⟩
    rw [h] at hrun
    contradiction

end Readers

/-- A grid beyond `2 ^ 53`. -/
def far : String := "\\draw (9007199254740992,0) grid (9007199254740992,0);"

/-- A disk on which pictures cannot be written, with a circle and a grid to read, settings whose scale is
not a number, and settings by which the grid is on the canvas. -/
def guarded : Disk where
  file? path :=
    if path = "in.tex" then some "\\draw (0,0) circle (1);"
    else if path = "far.tex" then some far
    else if path = "nan.toml" then some "[viewport]\nscale = nan"
    else if path = "vast.toml" then some "[viewport]\nscale = 1e-14"
    else none
  writable path := path ≠ "out.svg"

def nowhere : Places := ⟨"", none⟩

def sought : Arguments := { input := "in.tex", output := some "out.tex", picture := some "out.svg" }

/-- The settings of the vast canvas. -/
def vastly : Config := { viewport := { scale := 1e-14 } }

def strayed : Arguments := { sought with input := "far.tex", config := some "vast.toml" }

theorem isValid_vastly : vastly.IsValid :=
  { Config.isValid_default with scale := by decide +kernel }

theorem elements_far : (Session.edit {} far).scene.elements =
    [⟨.shape (.grid Preview.stuck Preview.stuck), {}⟩] := by
  with_unfolding_all rfl

theorem preview_far : (Session.edit {} far).scene.preview vastly = .ok none := by
  have hlimits := Limits.validate_eq_ok_iff.2 ⟨isValid_vastly.samples, isValid_vastly.clamp⟩
  refine Config.preview_eq_ok_iff.2 ⟨Preview.vast, _, rfl, Config.limits_eq_ok_iff.2 ⟨hlimits, rfl⟩, ?_⟩
  refine Preview.ofScene?_eq_none_iff.2 ⟨_, elements_far ▸ List.mem_singleton_self _, _, _, rfl, ?_⟩
  exact Preview.gridLines?_eq_none_iff.1 Preview.gridLines?_stuck

theorem run_strayed : guarded.run nowhere strayed =
    (none, guarded.write "out.tex" (Session.edit {} far).notify.2.finish.1) := by
  have hconfig : guarded.perform (loadConfig nowhere strayed.config) = (some (.ok vastly), guarded) :=
    perform_loadConfig (perform_readConfig rfl rfl) (Config.validate_eq_ok_iff_isValid.2 isValid_vastly)
  have hsource : guarded.text? strayed.input = some far := rfl
  have hhand : guarded.perform (Run.handOut _ strayed.output) = (some (.ok ()), _) :=
    perform_write guarded "out.tex" (Session.edit {} far).notify.2.finish.1 (.unwritable "out.tex")
  have hlook (e : Disk) : e.perform (liftM ((Session.edit {} far).scene.preview vastly)) =
      (some (.ok none), e) := by
    rw [preview_far]
    rfl
  rw [run_eq_carryOut hconfig hsource]
  exact (perform_bind_of_ok hhand).trans (perform_bind_of_ok (hlook _))

end Disk

end Sketch
