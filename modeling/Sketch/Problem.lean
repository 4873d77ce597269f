import Sketch.Config
import Sketch.Preview

/-!
What can go wrong when settings are read and files are written, and the notices that tell of
problems and diagnostics.
-/

namespace Sketch

/-- Why there are no settings to work with. -/
inductive ConfigError
  | malformed
  | missing (path : String)
  /-- The settings of a file were checked as it was read. -/
  | invalid (cause : SettingError)
  /-- A setting was found wanting when it was used. -/
  | setting (cause : SettingError)

def ConfigError.message : ConfigError → String
  | .malformed => "Failed to parse TOML configuration"
  | .missing path => "Missing configuration file: " ++ path
  | .invalid cause => "Validation error: " ++ cause.message
  | .setting cause => cause.message

/-- Why a picture was not handed out. -/
inductive PictureError
  | setting (cause : SettingError)
  | unwritable (path : String)

def PictureError.message : PictureError → String
  | .setting cause => "Render error: " ++ cause.message
  | .unwritable _ => "I/O error"

inductive Problem
  | unreadable (path : String)
  | unwritable (path : String)
  | config (cause : ConfigError)
  | picture (cause : PictureError)

namespace Problem

def message : Problem → String
  | .unreadable path => "I/O error: cannot read " ++ path
  | .unwritable path => "I/O error: cannot write " ++ path
  | .config cause => "Configuration error: " ++ cause.message
  | .picture cause => "Export error: " ++ cause.message

def code : Problem → String
  | .unreadable _ | .unwritable _ => "tikzsync::io"
  | .config _ => "tikzsync::config"
  | .picture _ => "tikzsync::export"

end Problem

/-- Something to tell the user: a diagnostic about a text, or a problem. -/
inductive Notice
  | diagnostic (d : Diagnostic) (source : String)
  | problem (p : Problem)

namespace Notice

def message : Notice → String
  | .diagnostic d _ => d.message
  | .problem p => p.message

def code? : Notice → Option String
  | .diagnostic d _ => d.code.map Code.number
  | .problem p => some p.code

def severity? : Notice → Option Severity
  | .diagnostic d _ => some d.severity
  | .problem _ => none

def help? : Notice → Option String
  | .diagnostic d _ => d.help
  | .problem _ => none

def marks : Notice → List Mark
  | .diagnostic d _ => d.marks
  | .problem _ => []

/-- The text that the marks are in. -/
def source? : Notice → Option String
  | .diagnostic _ source => some source
  | .problem _ => none

end Notice

/-- A notice for every reason why the formula was turned down. -/
def PlotFailure.notices (f : PlotFailure) : List Notice :=
  f.rejection.diagnostics.map (.diagnostic · f.expression)

end Sketch
