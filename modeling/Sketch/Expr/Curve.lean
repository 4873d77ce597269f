import Sketch.Element
import Sketch.Expr.Formula

/-!
The curve of a formula: its values at evenly spaced points, in runs between the points where it has
no value worth drawing.
-/

namespace Sketch

/-- How many samples are taken at most, and how far from zero a value may lie. -/
structure Limits where
  maxSamples : UInt32 := 2000
  clamp : Float := 1000
  deriving BEq

inductive LimitError
  | maxSamples (given : UInt32)
  | clamp (given : Float)

namespace Limits

/-- No limit allows more samples than this. -/
def samplesCeiling : UInt32 := 100000

/-- Limits that bound the number of samples and leave some of them. -/
def validate (l : Limits) : Except LimitError Unit :=
  if l.maxSamples < 2 ∨ samplesCeiling < l.maxSamples then .error (.maxSamples l.maxSamples)
  else if ¬ l.clamp.isFinite ∨ l.clamp ≤ 0 then .error (.clamp l.clamp)
  else .ok ()

/-- How many of the samples asked for are taken: at least two. -/
def sampleCount (l : Limits) (samples : UInt32) : UInt32 :=
  min (max samples 2) (min (max l.maxSamples 2) samplesCeiling)

end Limits

def LimitError.message : LimitError → String
  | .maxSamples n =>
    "max_samples must be between 2 and " ++ toString Limits.samplesCeiling.toNat ++ ", got " ++
      toString n.toNat
  | .clamp x => "clamp must be a positive number, got " ++ Number.text x

/-- Connected pieces of a curve. -/
abbrev Curve := List (List Point)

namespace Curve

def pointCount (c : Curve) : Nat := c.flatten.length

/-- Adds a run to those after it, unless it is empty. -/
def addRun (run : List Point) (later : Curve) : Curve := if run.isEmpty then later else run :: later

/-- Takes a sample into the run before which it stands; a gap ends the run. -/
def addSample : Option Point → List Point × Curve → List Point × Curve
  | some p, (run, later) => (p :: run, later)
  | none, (run, later) => ([], addRun run later)

/-- The maximal runs of points between gaps. -/
def ofSamples (samples : List (Option Point)) : Curve :=
  let (run, later) := samples.foldr addSample ([], [])
  addRun run later

end Curve

namespace Domain

/-- The points at which `count` samples are taken, both bounds included. -/
def points (d : Domain) (count : Nat) : List Float :=
  if count = 1 then [d.min]
  else (List.range count).map fun i =>
    Number.smaller (d.min + (d.max - d.min) * .ofNat i / .ofNat (count - 1)) d.max

end Domain

namespace Formula

/-- The point of the curve at `x`, if the value is finite and within the clamp. -/
def point? (f : Formula) (l : Limits) (x : Float) : Option Point :=
  let y := f.eval x
  if y.isFinite ∧ y.abs ≤ l.clamp then some ⟨x, y⟩ else none

/-- Samples a formula. The bounds may be given in either order; equal ones give one sample. -/
def sample (f : Formula) (d : Domain) (samples : UInt32) (l : Limits) : Curve :=
  let d := d.ordered
  if d.min.isFinite ∧ d.max.isFinite then
    let count := if d.min == d.max then 1 else (l.sampleCount samples).toNat
    .ofSamples ((d.points count).map (f.point? l))
  else []

end Formula

end Sketch
