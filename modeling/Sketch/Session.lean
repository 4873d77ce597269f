import Sketch.Code.Printer

/-!
An editing session holds a scene and its code in step. An edit of the scene writes the code anew;
an edit of the code reads the scene anew. The guard lets the second kind of edit keep its text: it
is raised while a text is taken in, and turns away the one rewriting that the new scene asks for. A
snippet is put into the code at once but read only when the next step comes.
-/

namespace Sketch

/-- Who drives a session. -/
inductive Activity
  | idle
  | text
  | scene
  deriving DecidableEq, Repr

def Activity.name : Activity → String
  | .idle => "idle"
  | .text => "text editing"
  | .scene => "scene editing"

inductive Tab
  | scene
  | code
  | templates
  | snippets
  deriving DecidableEq, Repr

def Tab.name : Tab → String
  | .scene => "scene"
  | .code => "code"
  | .templates => "templates"
  | .snippets => "snippets"

structure Session where
  scene : Scene := {}
  code : String := Scene.code {}
  activity : Activity := .idle
  tab : Tab := .scene
  guarded : Bool := false
  pending : Bool := false
  diagnostics : List Diagnostic := []

/-- The lines of a snippet, indented and each with a line feed. -/
def Snippet.block (snippet : List Char) : List Char :=
  (Text.lines snippet).flatMap fun line => "  ".toList ++ Text.withoutBreak line ++ ['\n']

/-- Puts a snippet on lines of its own before the last end of a picture, or after everything. -/
def Snippet.splice (code snippet : List Char) : List Char :=
  let (before, rest) := (Text.splitLast? Command.pictureEnd.toList code).getD (code, [])
  let gap := if before = [] ∨ before.getLast? = some '\n' then [] else ['\n']
  before ++ gap ++ block snippet ++ rest

namespace Session

/-- Writes the code of the scene, unless the guard is up; the guard comes down. -/
def regenerate (s : Session) : Bool × Session :=
  if s.guarded then (false, { s with guarded := false })
  else (true, { s with code := s.scene.code })

/-- Takes in a text under guard and reads the scene from it. -/
def takeText (s : Session) (text : String) : Session :=
  let document := Document.ofText text
  (regenerate { s with
    guarded := true
    code := text
    activity := .text
    scene := document.applyTo s.scene
    diagnostics := document.diagnostics }).2

/-- Reads the code if a snippet waits in it, and says whether one did. -/
def tick (s : Session) : Bool × Session :=
  if s.pending then (true, { s with pending := false }.takeText s.code) else (false, s)

def flush (s : Session) : Session := s.tick.2

/-- Rewrites the code after an edit of the scene. -/
def sceneEdited (s : Session) : Session := (regenerate { s with activity := .scene }).2

def add (s : Session) (e : Element) : ElementId × Session :=
  let s := s.flush
  (s.scene.nextId, sceneEdited { s with scene := s.scene.add e })

/-- Removes an element if it is there; otherwise the code is left alone. -/
def remove (s : Session) (id : ElementId) : Option Placed × Session :=
  let s := s.flush
  match s.scene.get? id with
  | some p => (some p, sceneEdited { s with scene := s.scene.remove id })
  | none => (none, s)

def replace (s : Session) (es : List Element) : Session :=
  let s := s.flush
  sceneEdited { s with scene := s.scene.replaceAll es }

def clear (s : Session) : Session :=
  let s := s.flush
  sceneEdited { s with scene := s.scene.clear }

/-- An edit of the code. -/
def edit (s : Session) (text : String) : Session := s.flush.takeText text

/-- Puts a snippet into the code, to be read later. -/
def insert (s : Session) (snippet : String) : Session :=
  let s := s.flush
  { s with
    code := .ofList (Snippet.splice s.code.toList snippet.toList)
    activity := .text
    pending := true }

def switchTab (s : Session) (tab : Tab) : Session := { s.flush with tab }

/-- Answers a notice that the scene has changed, and says whether the code was rewritten. -/
def notify (s : Session) : Bool × Session := s.flush.regenerate

/-- Hands out the code and ends the editing. -/
def finish (s : Session) : String × Session :=
  let s := s.flush
  (s.code, { s with activity := .idle })

end Session

end Sketch
