import Sketch.Rendering
import Sketch.Session

/-!
A run of the tool on a file of code: the settings are read and checked, the code is read as one
edit, the scene it shows is written as code again, and its picture is drawn if asked for.
-/

namespace Sketch

/-- What a run needs of the machine it runs on. -/
class Host (m : Type → Type) where
  exists? : String → m Bool
  /-- The text of a file, if it can be read. -/
  read? : String → m (Option String)
  /-- Writes a file, and says whether that was possible. -/
  write : String → String → m Bool
  /-- Shows a text to the user, with a line feed after it, and says whether that was possible. -/
  print : String → m Bool

structure Arguments where
  input : String
  output : Option String := none
  picture : Option String := none
  config : Option String := none

/-- Where settings are looked for if no file is named: first here, then at home. -/
structure Places where
  here : String
  home : Option String

/-- What a run tells in the end. -/
structure Report where
  source : String
  code : String
  diagnostics : List Diagnostic
  failures : List PlotFailure

/-- The diagnostics of the code come before those of the plots. -/
def Report.notices (r : Report) : List Notice :=
  r.diagnostics.map (.diagnostic · r.source) ++ r.failures.flatMap PlotFailure.notices

namespace Run

variable {m : Type → Type} [Monad m] [Host m]

/-- A step that may end the run with a problem, or never end. -/
abbrev Step (m : Type → Type) := ExceptT Problem (OptionT m)

/-- The step that does not end. -/
def endless : Step m α := (OptionT.fail : OptionT m _)

def read (path : String) : Step m String := do
  match ← (Host.read? path : m _) with
  | some text => return text
  | none => throw (.unreadable path)

/-- Writes a file, or ends the run with a problem. -/
def write (path text : String) (problem : Problem) : Step m Unit := do
  unless ← (Host.write path text : m _) do throw problem

/-- What is told to be unwritable if nothing can be shown to the user. -/
def standardOutput : String := "standard output"

/-- Hands out code: to a file if one is named, and else to the user. -/
def handOut (code : String) : Option String → Step m Unit
  | some path => write path code (.unwritable path)
  | none => do unless ← (Host.print code : m _) do throw (.unwritable standardOutput)

/-- Draws the picture if a file is named for it. -/
def draw [Readers] (preview : Preview) (config : Config) : Option String → Step m Unit
  | some path => do
    let document ← preview.document config
    write path document (.picture (.unwritable path))
  | none => return

/-- The file that settings are read from. -/
def configPath? (places : Places) : Option String → m (Option String)
  | some path => return some path
  | none => do
    if ← Host.exists? places.here then return some places.here
    match places.home with
    | some path => return if ← Host.exists? path then some path else none
    | none => return none

/-- The settings of a file. -/
def readConfig [Readers] (path : String) : Step m Config := do
  unless ← (Host.exists? path : m _) do throw (.config (.missing path))
  match Config.ofText? (← read path) with
  | some c => return c
  | none => throw (.config .malformed)

/-- The settings of the file that is found, and the defaults if there is none. -/
def findConfig [Readers] (places : Places) (explicit : Option String) : Step m Config := do
  match ← (configPath? places explicit : m _) with
  | some path => readConfig path
  | none => return {}

/-- The settings to work with, checked. -/
def loadConfig [Readers] (places : Places) (explicit : Option String) : Step m Config := do
  let c ← findConfig places explicit
  match c.validate with
  | .ok _ => return c
  | .error cause => throw (.config (.invalid cause))

/-- What a run does once it has its settings and its input. -/
def carryOut [Readers] (arguments : Arguments) (config : Config) (source : String) : Step m Report := do
  let session := Session.edit {} source
  let (code, _) := session.notify.2.finish
  handOut code arguments.output
  let some preview ← session.scene.preview config | endless
  draw preview config arguments.picture
  return { source, code, diagnostics := session.diagnostics, failures := preview.failures }

end Run

open Run in
/-- A run is over before its first write unless the settings are valid and the input is there. -/
def run {m : Type → Type} [Monad m] [Host m] [Readers] (places : Places) (arguments : Arguments) :
    Step m Report := do
  let config ← loadConfig places arguments.config
  let source ← read arguments.input
  carryOut arguments config source

end Sketch
