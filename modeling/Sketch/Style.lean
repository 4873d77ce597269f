import Sketch.Color

/-!
How an element looks. The default values of `Style` are the only ones: a code option is written
where a style differs from them, and every style read from code starts from them.
-/

namespace Sketch

inductive LineStyle
  | solid
  | dashed
  | dotted
  deriving DecidableEq, Repr

inductive ArrowHead
  | none
  | forward
  | backward
  | both
  deriving DecidableEq, Repr

/-- Why a word names no line style or no arrow. -/
inductive StyleError
  | color (cause : ColorError)
  | lineStyle (text : String)
  | arrowHead (text : String)
  deriving DecidableEq, Repr

def StyleError.message : StyleError → String
  | .color cause => cause.message
  | .lineStyle text => "invalid line style `" ++ text ++ "`, valid values: solid, dashed, dotted"
  | .arrowHead text => "invalid arrow head `" ++ text ++ "`, valid values: none, ->, <-, <->"

namespace LineStyle

def keyword : LineStyle → String
  | .solid => "solid"
  | .dashed => "dashed"
  | .dotted => "dotted"

/-- A solid line is not mentioned in code. -/
def option? : LineStyle → Option String
  | .solid => Option.none
  | s => some s.keyword

/-- The lengths of dashes and gaps in a picture. -/
def dashes? : LineStyle → Option String
  | .solid => Option.none
  | .dashed => some "5,5"
  | .dotted => some "2,3"

def ofText : String → Except StyleError LineStyle
  | "solid" => .ok .solid
  | "dashed" => .ok .dashed
  | "dotted" => .ok .dotted
  | text => .error (.lineStyle text)

end LineStyle

namespace ArrowHead

def keyword : ArrowHead → String
  | .none => "none"
  | .forward => "->"
  | .backward => "<-"
  | .both => "<->"

/-- A line without arrows is not mentioned in code. -/
def option? : ArrowHead → Option String
  | .none => Option.none
  | a => some a.keyword

def hasStart : ArrowHead → Bool
  | .backward | .both => true
  | .none | .forward => false

def hasEnd : ArrowHead → Bool
  | .forward | .both => true
  | .none | .backward => false

def ofText : String → Except StyleError ArrowHead
  | "none" | "" => .ok .none
  | "->" => .ok .forward
  | "<-" => .ok .backward
  | "<->" => .ok .both
  | text => .error (.arrowHead text)

end ArrowHead

/-- A line width in millimeters: zero or a positive float. -/
structure LineWidth where
  mm : Float
  nonneg : mm = 0 ∨ 0 < mm
  deriving DecidableEq

namespace LineWidth

instance : BEq LineWidth := ⟨fun a b => a.mm == b.mm⟩

def standard : LineWidth := ⟨0.8, by decide⟩

/-- A negative width is taken for zero, and one that is not a number for the standard width. -/
def ofFloat (mm : Float) : LineWidth :=
  if mm.isNaN then standard else if h : 0 < mm then ⟨mm, .inr h⟩ else ⟨0, .inl rfl⟩

end LineWidth

/-- An opacity in percent. -/
structure Opacity where
  percent : Nat
  le_hundred : percent ≤ 100
  deriving DecidableEq

namespace Opacity

instance : BEq Opacity := ⟨fun a b => a.percent == b.percent⟩

def full : Opacity := ⟨100, by decide⟩

def ofNat (percent : Nat) : Opacity := ⟨min percent 100, Nat.min_le_right ..⟩

/-- The opacity as a part of one. -/
def fraction (o : Opacity) : Float := .ofNat o.percent / 100

end Opacity

structure Style where
  color : Color := .black
  fill : Option Color := none
  lineWidth : LineWidth := .standard
  opacity : Opacity := .full
  lineStyle : LineStyle := .solid
  arrowHead : ArrowHead := .none
  deriving BEq

def Style.isDefault (s : Style) : Bool := s == {}

end Sketch
