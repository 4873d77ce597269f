import Sketch.Element
import Sketch.Number.Notation
import Sketch.Number.Rounding
import Sketch.Text.Blank
import Sketch.Text.Lines

/-!
The option list of a command. Every entry is read on its own as a setting; an entry that makes no
setting is passed over, and of two settings of one property the later one counts.
-/

namespace Sketch

/-- What one entry of an option list sets. A color key with a bad value takes its color away. -/
inductive Setting
  | draw (color : Option Color)
  | text (color : Option Color)
  | color (color : Option Color)
  | fill (color : Option Color)
  | lineWidth (mm : Float)
  | opacity (percent : Nat)
  | arrowHead (arrows : ArrowHead)
  | lineStyle (style : LineStyle)
  | domain (domain : Domain)
  | samples (count : UInt32)
  | axis (visible : Bool)

namespace Setting

/-- A point is the 72.27th part of an inch. -/
def mmPerPoint : Float := 25.4 / 72.27

def hex? (value : List Char) : Option Color := (Color.ofHex (.ofList value)).toOption

/-- A number and the millimeters of its unit; points when there is none. -/
def splitUnit (value : List Char) : List Char × Float :=
  match Text.before? "mm".toList value, Text.before? "cm".toList value,
    Text.before? "pt".toList value with
  | some n, _, _ => (n, 1)
  | none, some n, _ => (n, 10)
  | none, none, some n => (n, mmPerPoint)
  | none, none, none => (value, mmPerPoint)

/-- A length in millimeters. -/
def length? (value : List Char) : Option Float :=
  let (number, unit) := splitUnit value
  (Number.readFinite? (Text.trim number)).map (· * unit)

/-- A part of one in whole percent. -/
def percent? (value : List Char) : Option Nat :=
  (Number.readFinite? value).map fun part =>
    let percent := Number.round (part * 100)
    if percent ≤ 0 then 0 else if 100 ≤ percent then 100 else percent.toUInt8.toNat

/-- Two bounds with a colon between them. -/
def domain? (value : List Char) : Option Domain := do
  let (low, high) ← Text.splitFirst? ':' value
  let low ← Number.readFinite? (Text.trim low)
  let high ← Number.readFinite? (Text.trim high)
  some ⟨low, high⟩

/-- An entry that has a value. -/
def ofKey? (key : String) (value : List Char) : Option Setting :=
  match key with
  | "draw" => some (.draw (hex? value))
  | "text" => some (.text (hex? value))
  | "color" => some (.color (hex? value))
  | "fill" => some (.fill (hex? value))
  | "line width" => (length? value).map .lineWidth
  | "opacity" => (percent? value).map .opacity
  | "arrows" => (ArrowHead.ofText (.ofList value)).toOption.map .arrowHead
  | "domain" => (domain? value).map .domain
  | "samples" => (Number.readCount? value).map .samples
  | "axis lines" => some (.axis (value ≠ "none".toList))
  | _ => none

/-- An entry of a single word or phrase. -/
def ofFlag? : String → Option Setting
  | "->" => some (.arrowHead .forward)
  | "<-" => some (.arrowHead .backward)
  | "<->" => some (.arrowHead .both)
  | "solid" => some (.lineStyle .solid)
  | "dashed" | "densely dashed" | "loosely dashed" => some (.lineStyle .dashed)
  | "dotted" | "densely dotted" | "loosely dotted" => some (.lineStyle .dotted)
  | "hide axis" => some (.axis false)
  | "ultra thin" => some (.lineWidth (0.1 * mmPerPoint))
  | "very thin" => some (.lineWidth (0.2 * mmPerPoint))
  | "thin" => some (.lineWidth (0.4 * mmPerPoint))
  | "semithick" => some (.lineWidth (0.6 * mmPerPoint))
  | "thick" => some (.lineWidth (0.8 * mmPerPoint))
  | "very thick" => some (.lineWidth (1.2 * mmPerPoint))
  | "ultra thick" => some (.lineWidth (1.6 * mmPerPoint))
  | _ => none

/-- A value without one pair of braces around it. -/
def unbrace (value : List Char) : List Char :=
  match Text.after? ['{'] value >>= Text.before? ['}'] with
  | some inner => Text.trim inner
  | none => value

/-- The setting of a trimmed entry. -/
def ofEntry? (entry : List Char) : Option Setting :=
  match Text.splitFirst? '=' entry with
  | some (key, value) => ofKey? (.ofList (Text.trim key)) (unbrace (Text.trim value))
  | none => ofFlag? (.ofList entry)

end Setting

/-- The properties that an option list has set. -/
structure Options where
  draw : Option Color := none
  text : Option Color := none
  color : Option Color := none
  fill : Option Color := none
  lineWidth : Option Float := none
  opacity : Option Nat := none
  arrowHead : Option ArrowHead := none
  lineStyle : Option LineStyle := none
  domain : Option Domain := none
  samples : Option UInt32 := none
  axis : Option Bool := none
  deriving BEq

namespace Options

def set (o : Options) : Setting → Options
  | .draw c => { o with draw := c }
  | .text c => { o with text := c }
  | .color c => { o with color := c }
  | .fill c => { o with fill := c }
  | .lineWidth mm => { o with lineWidth := some mm }
  | .opacity percent => { o with opacity := some percent }
  | .arrowHead a => { o with arrowHead := some a }
  | .lineStyle s => { o with lineStyle := some s }
  | .domain d => { o with domain := some d }
  | .samples n => { o with samples := some n }
  | .axis visible => { o with axis := some visible }

/-- Puts a character before the entries that follow it. -/
def consEntry (c : Char) : List (List Char) → List (List Char)
  | [] => [[c]]
  | e :: es => (c :: e) :: es

/-- Splits at the commas outside braces. -/
def splitEntries : (depth : Nat) → List Char → List (List Char)
  | _, [] => [[]]
  | depth, c :: cs =>
    if c = ',' ∧ depth = 0 then [] :: splitEntries 0 cs
    else consEntry c (splitEntries (Braces.deepen depth c) cs)

/-- The settings of an option list in order. -/
def settings (raw : List Char) : List Setting :=
  (splitEntries 0 raw).filterMap fun entry => Setting.ofEntry? (Text.trim entry)

/-- Reads the text between the brackets of an option list. -/
def ofText (raw : List Char) : Options := (settings raw).foldl set {}

/-- The color of an element of some kind: a label has a key of its own. -/
def colorFor (o : Options) : Kind → Option Color
  | .text => o.text.or o.color
  | .shape | .plot => o.draw.or o.color

/-- The style of an element of some kind, with the default for all that is not set. -/
def styleFor (o : Options) (kind : Kind) : Style where
  color := (o.colorFor kind).getD .black
  fill := o.fill
  lineWidth := (o.lineWidth.map .ofFloat).getD .standard
  opacity := (o.opacity.map .ofNat).getD .full
  lineStyle := o.lineStyle.getD .solid
  arrowHead := o.arrowHead.getD .none

/-- An axis with the domain and the number of samples that are set. -/
def sampling (o : Options) (axis : Axis) : Axis :=
  { axis with domain := o.domain.getD axis.domain, samples := o.samples.getD axis.samples }

end Options

end Sketch
