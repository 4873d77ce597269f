import Sketch.Element

/-!
A scene keeps its elements in drawing order, each under a number of its own. Numbers are given out
in ascending order and never again, whatever is removed.
-/

namespace Sketch

/-- The number under which a scene keeps an element. -/
structure ElementId where
  number : Nat
  deriving DecidableEq, Repr

def ElementId.name (i : ElementId) : String := "el-" ++ toString i.number

structure Placed where
  id : ElementId
  element : Element

/-- The elements in drawing order. `allocated` counts those ever added. -/
structure Scene where
  placed : List Placed := []
  allocated : Nat := 0

namespace Scene

/-- Puts an element on top, under the next number. -/
def add (s : Scene) (e : Element) : Scene :=
  ⟨s.placed ++ [⟨⟨s.allocated + 1⟩, e⟩], s.allocated + 1⟩

/-- The number that `add` gives out. -/
def nextId (s : Scene) : ElementId := ⟨s.allocated + 1⟩

def addAll (s : Scene) (es : List Element) : Scene := es.foldl add s

def ofElements (es : List Element) : Scene := addAll {} es

def get? (s : Scene) (id : ElementId) : Option Placed := s.placed.find? (·.id = id)

def remove (s : Scene) (id : ElementId) : Scene :=
  { s with placed := s.placed.filter (·.id ≠ id) }

def clear (s : Scene) : Scene := { s with placed := [] }

/-- Puts new elements in the place of all the old ones. -/
def replaceAll (s : Scene) (es : List Element) : Scene := s.clear.addAll es

def size (s : Scene) : Nat := s.placed.length

def isEmpty (s : Scene) : Bool := s.placed.isEmpty

def elements (s : Scene) : List Element := s.placed.map (·.element)

@[simp] theorem elements_add (s : Scene) (e : Element) :
    (s.add e).elements = s.elements ++ [e] := by
  simp [add, elements]

@[simp] theorem elements_addAll (s : Scene) (es : List Element) :
    (s.addAll es).elements = s.elements ++ es := by
  induction es generalizing s with
  | nil => simp [addAll]
  | cons e es ih =>
    show ((s.add e).addAll es).elements = s.elements ++ e :: es
    simp [ih]

@[simp] theorem elements_clear (s : Scene) : s.clear.elements = [] := rfl

@[simp] theorem elements_replaceAll (s : Scene) (es : List Element) :
    (s.replaceAll es).elements = es := by
  simp [replaceAll]

@[simp] theorem elements_ofElements (es : List Element) : (ofElements es).elements = es :=
  elements_addAll {} es

def plots (s : Scene) : List Placed := s.placed.filter (·.element.isPlot)

def others (s : Scene) : List Placed := s.placed.filter (!·.element.isPlot)

/-- The axis of the first plot, which all the plots are drawn on. -/
def axis? (s : Scene) : Option Axis := (s.plots.head?.bind (·.element.plot?)).map (·.axis)

/-- Whether two scenes hold the same plots and the same other elements, each in the same order.
Numbers and the mixing of plots with other elements do not matter. -/
def isEquivalent (s t : Scene) : Bool :=
  s.others.map (·.element) == t.others.map (·.element) &&
  s.plots.map (·.element) == t.plots.map (·.element)

end Scene

end Sketch
