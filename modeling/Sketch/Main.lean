import Sketch.Config.File
import Sketch.Run

/-!
The command line: reads the arguments, runs on the files of the machine, and shows what the run
tells on the error stream.
-/

namespace Sketch

instance : Host IO where
  exists? path := do
    try
      discard <| IO.FS.Handle.mk path .read
      return true
    catch _ => return false
  read? path := do
    try return some (← IO.FS.readFile path)
    catch _ => return none
  write path text := do
    try
      IO.FS.writeFile path text
      return true
    catch _ => return false
  print text := do
    try
      IO.println text
      return true
    catch _ => return false

/-- How much is told: problems only, or warnings too. -/
structure Verbosity where
  problems : Bool := true
  warnings : Bool := true

/-- The verbosity of a log level in either case. -/
def Verbosity.ofText? (text : String) : Option Verbosity :=
  match text.toLower with
  | "off" => some ⟨false, false⟩
  | "error" => some ⟨true, false⟩
  | "warn" | "info" | "debug" | "trace" => some ⟨true, true⟩
  | _ => none

def usage : String :=
  "usage: tikzsync INPUT [-o|--output PATH] [--svg PATH] [-c|--config PATH] [--log-level LEVEL]"

/-- What the command line says. -/
structure CommandLine where
  input : Option String := none
  output : Option String := none
  picture : Option String := none
  config : Option String := none
  level : String := "info"

/-- Takes in the words of a command line; of an option given twice the later one counts. -/
def CommandLine.read? (c : CommandLine) : List String → Option CommandLine
  | [] => some c
  | "-o" :: path :: words | "--output" :: path :: words => read? { c with output := some path } words
  | "--svg" :: path :: words => read? { c with picture := some path } words
  | "-c" :: path :: words | "--config" :: path :: words => read? { c with config := some path } words
  | "--log-level" :: level :: words => read? { c with level } words
  | word :: words =>
    if word.startsWith "-" ∨ c.input.isSome then none else read? { c with input := some word } words

/-- The arguments of a run, if an input is named. -/
def CommandLine.arguments? (c : CommandLine) : Option Arguments :=
  c.input.map fun input => { input, output := c.output, picture := c.picture, config := c.config }

/-- A notice on lines of its own, with the places that it marks. -/
def Notice.text (n : Notice) : String :=
  let code := match n.code? with
    | some code => "[" ++ code ++ "]"
    | none => ""
  let severity := ((n.severity?.getD .error).name)
  let marks := n.marks.map fun m => "  " ++ m.span.text ++ ": " ++ m.message
  let help := n.help?.toList.map ("  help: " ++ ·)
  "\n".intercalate ((severity ++ code ++ ": " ++ n.message) :: marks ++ help)

/-- Where settings are looked for. A folder for them that is named by a variable counts only if its path
starts at the root. -/
def places : IO Places := do
  let named := (← IO.getEnv "XDG_CONFIG_HOME").filter (·.startsWith "/")
  let home := (← IO.getEnv "HOME").filter (· ≠ "")
  let folder := named.orElse fun _ => home.map (· ++ "/.config")
  return { here := "tikzsync/config.toml", home := folder.map (· ++ "/tikzsync/config.toml") }

end Sketch

open Sketch in
def main (words : List String) : IO UInt32 := do
  let some line := CommandLine.read? {} words
    | IO.eprintln usage
      return 2
  let some arguments := line.arguments?
    | IO.eprintln usage
      return 2
  let verbosity := Verbosity.ofText? line.level
  if verbosity.isNone then
    IO.eprintln ("Invalid log level: " ++ line.level ++ ". Using 'warn' instead.")
  let verbosity := verbosity.getD {}
  match ← (run (← places) arguments : Run.Step IO Report).run.run with
  | none =>
    IO.eprintln "the lines of a grid never end"
    return 1
  | some (.error problem) =>
    if verbosity.problems then IO.eprintln (Notice.problem problem).text
    return 1
  | some (.ok report) =>
    if verbosity.warnings then
      for notice in report.notices do IO.eprintln notice.text
    return 0
