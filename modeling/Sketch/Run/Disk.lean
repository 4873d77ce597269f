import Sketch.Config.File
import Sketch.Run

/-!
A machine whose files are a map from paths to texts.
-/

namespace Sketch

/-- Files, what can be read and written, the paths at which a write was tried, and what has been
printed. -/
structure Disk where
  file? : String → Option String := fun _ => none
  readable : String → Bool := fun _ => true
  writable : String → Bool := fun _ => true
  printable : Bool := true
  tried : List String := []
  printed : List String := []

namespace Disk

def put (d : Disk) (path text : String) : Disk :=
  { d with file? := fun p => if p = path then some text else d.file? p }

/-- The text of a file that can be read. -/
def text? (d : Disk) (path : String) : Option String := if d.readable path then d.file? path else none

/-- Tries to write a file. -/
def write (d : Disk) (path text : String) : Disk :=
  let d := { d with tried := d.tried ++ [path] }
  if d.writable path then d.put path text else d

/-- Tries to print. -/
def print (d : Disk) (text : String) : Disk :=
  if d.printable then { d with printed := d.printed ++ [text] } else d

instance : Host (StateM Disk) where
  exists? path := return ((← get).file? path).isSome
  read? path := return (← get).text? path
  write path text := modifyGet fun d => (d.writable path, d.write path text)
  print text := modifyGet fun d => (d.printable, d.print text)

/-- What a step comes to on a disk, if it ends, and the disk it leaves. -/
def perform (d : Disk) (x : Run.Step (StateM Disk) α) : Option (Except Problem α) × Disk :=
  x.run.run.run d

def run [Readers] (d : Disk) (places : Places) (arguments : Arguments) :
    Option (Except Problem Report) × Disk :=
  d.perform (Sketch.run places arguments)

end Disk

end Sketch
