import Sketch.Color.Css
import Sketch.Config
import Sketch.Config.Toml

/-!
Settings read from a file. What the file does not mention keeps its default, and what it mentions
beyond the settings is passed over, but a setting must have the right kind of value.
-/

namespace Sketch

namespace Toml

def Value.toFloat? : Value → Option Float
  | .integer n => some (Decimal.toFloat ⟨n < 0, n.natAbs, 0⟩)
  | .float x => some x
  | _ => none

def Value.toCount? : Value → Option UInt32
  | .integer n => if 0 ≤ n ∧ n < UInt32.size then some (.ofNat n.toNat) else none
  | _ => none

def Value.toText? : Value → Option String
  | .text s => some s
  | _ => none

/-- A setting of a table, or its default if the table does not have the key. -/
def Table.setting (t : Table) (key : String) (convert : Value → Option α) (default : α) : Option α :=
  match t.entries.lookup key with
  | some value => convert value
  | none => some default

/-- A table by name, empty if it is not there. There is none if a single value has its name. -/
def File.section? (f : File) (name : String) : Option Table :=
  if (f.entries.lookup name).isSome then none else some ((f.table? name).getD { name })

end Toml

open Toml in
/-- The settings in a file. -/
def Config.ofFile? (f : File) : Option Config := do
  let viewport ← f.section? "viewport"
  let sampling ← f.section? "sampling"
  let preview ← f.section? "preview"
  let default : Config := {}
  return {
    viewport := {
      width := ← viewport.setting "width" Value.toFloat? default.viewport.width
      height := ← viewport.setting "height" Value.toFloat? default.viewport.height
      scale := ← viewport.setting "scale" Value.toFloat? default.viewport.scale }
    sampling := {
      maxSamples := ← sampling.setting "max_samples" Value.toCount? default.sampling.maxSamples
      clamp := ← sampling.setting "clamp" Value.toFloat? default.sampling.clamp }
    preview := {
      background := ← preview.setting "background_color" Value.toText? default.preview.background
      fontSize := ← preview.setting "font_size" Value.toFloat? default.preview.fontSize } }

/-- The readers at hand. Each reads a part of its notation. -/
instance : Readers where
  color? := Color.readCss?
  config? text := Toml.File.ofText? text >>= Config.ofFile?

end Sketch
