import Sketch.Expr.Curve

/-!
Settings of the picture: the canvas, the bounds on samples, the background and the size of labels.
Settings are kept as given. They are checked where they are used, and all at once by
`Config.validate`. The notation of files of settings, and that of the background, are for others to
read.
-/

namespace Sketch

/-- The canvas in pixels, and the pixels to a unit. -/
structure ViewportSettings where
  width : Float := Viewport.defaultSize.width
  height : Float := Viewport.defaultSize.height
  scale : Float := Viewport.defaultScale
  deriving BEq

structure PreviewSettings where
  background : String := "#ffffff"
  fontSize : Float := 14
  deriving BEq

structure Config where
  viewport : ViewportSettings := {}
  sampling : Limits := {}
  preview : PreviewSettings := {}
  deriving BEq

/-- Readers of notations that are not the program's own: the colors of style sheets, and files of
settings. -/
class Readers where
  color? : String → Option Color
  config? : String → Option Config

/-- What is known of the readers: a number sign with six digits is the color that is written so, and
settings that a file does not mention keep their defaults. -/
class Readers.Lawful [Readers] : Prop where
  color?_css (c : Color) : Readers.color? c.css = some c
  config?_empty : Readers.config? "" = some {}

/-- Reads a color in the notation of style sheets. -/
def Color.ofCss [Readers] (text : String) : Except ColorError Color :=
  match Readers.color? text with
  | some c => .ok c
  | none => .error (.css text)

/-- Reads the settings from the text of a file. -/
def Config.ofText? [Readers] (text : String) : Option Config := Readers.config? text

inductive SettingError
  | viewport (name : String) (given : Float)
  | sampling (cause : LimitError)
  | background (cause : ColorError)

def SettingError.message : SettingError → String
  | .viewport name x =>
    "Invalid viewport " ++ name ++ " in config: expected a positive number, got " ++ Number.text x
  | .sampling cause => "Invalid sampling in config: " ++ cause.message
  | .background cause => "Invalid background color in config: " ++ cause.message

/-- Lengths of the canvas are finite and positive. -/
def ViewportSettings.checkLength (name : String) (x : Float) : Except SettingError Unit :=
  if x.isFinite ∧ 0 < x then .ok () else .error (.viewport name x)

/-- The viewport with its origin at the center of the canvas. -/
def ViewportSettings.toViewport (s : ViewportSettings) : Except SettingError Viewport := do
  checkLength "width" s.width
  checkLength "height" s.height
  checkLength "scale" s.scale
  return .centered ⟨s.width, s.height⟩ s.scale

def PreviewSettings.color [Readers] (s : PreviewSettings) : Except SettingError Color :=
  (Color.ofCss s.background).mapError .background

namespace Config

def limits (c : Config) : Except SettingError Limits := do
  c.sampling.validate.mapError .sampling
  return c.sampling

/-- Settings from which every scene can be drawn. -/
def validate [Readers] (c : Config) : Except SettingError Unit := do
  let _ ← c.viewport.toViewport
  let _ ← c.limits
  let _ ← c.preview.color

end Config

end Sketch
