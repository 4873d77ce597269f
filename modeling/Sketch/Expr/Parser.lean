import Sketch.Expr
import Sketch.Expr.Token

/-!
Reads tokens as an expression. From the loosest to the tightest, an expression is a sum of products
of signed powers; a power takes one signed exponent, so that it associates to the right and binds
tighter than a sign on its left. Parentheses, arguments, signs and exponents are read one level
further in, and the levels are limited.
-/

namespace Sketch

/-- What a reader was looking for. -/
inductive Wanted
  | operand
  | closing
  | operator
  deriving DecidableEq, Repr

def Wanted.describe : Wanted → String
  | .operand => "a number, `x` or `(`"
  | .closing => "`)`"
  | .operator => "an operator or end of expression"

/-- Why tokens are no expression. -/
inductive Fault
  | nothing
  | tooMany (count : Nat) (excess : Span)
  | tooDeep (place : Span)
  | ended (wanted : Wanted) (opened : Option Span)
  | unexpected (found : Lexeme) (wanted : Wanted) (opened : Option Span)
  | uncalled (f : Builtin) (place : Span)
  | unknownName (name : String) (place : Span)
  | unknownFunction (name : String) (place : Span)
  | argumentCount (f : Builtin) (supplied : Nat) (place : Span)
  deriving DecidableEq

namespace Expr

/-- An expression has at most this many tokens. -/
def maxTokens : Nat := 256

/-- Parentheses, arguments, signs and exponents nest at most this deep. -/
def maxDepth : Nat := 64

end Expr

namespace Fault

/-- The diagnostic of a fault in a text of `length` bytes. -/
def diagnostic (length : Nat) : Fault → Diagnostic
  | nothing =>
    (Diagnostic.ofCode .error .incomplete "empty expression" (.ofBounds 0 length)).advise
      "write a function of `x`, for example `sin(x)`"
  | tooMany count excess =>
    .ofCode .error .tooComplex
      ("expression has " ++ toString count ++ " tokens, the limit is " ++ toString Expr.maxTokens)
      (excess.union (.empty length))
  | tooDeep place =>
    .ofCode .error .tooComplex
      ("expression is nested more than " ++ toString Expr.maxDepth ++ " levels deep") place
  | ended wanted opened =>
    let d := Diagnostic.ofCode .error .incomplete
      ("expression ended early, expected " ++ wanted.describe) (.empty length)
    match opened with
    | some s => d.context s "unclosed parenthesis"
    | none => d
  | unexpected found wanted opened =>
    let d := Diagnostic.ofCode .error .unexpectedToken
      ("unexpected " ++ found.token.describe ++ ", expected " ++ wanted.describe) found.span
    match opened with
    | some s => d.context s "to close this parenthesis"
    | none => d
  | uncalled f place =>
    { severity := .error, message := "function `" ++ f.name ++ "` must be called",
      code := some .unexpectedToken, marks := [⟨place, "missing argument list", true⟩],
      help := some ("write `" ++ f.name ++ "(x)`") }
  | unknownName name place =>
    (Diagnostic.ofCode .error .unknownName ("unknown identifier `" ++ name ++ "`") place).advise
      "the only variable is `x`; constants are `pi` and `e`"
  | unknownFunction name place =>
    (Diagnostic.ofCode .error .unknownFunction ("unknown function `" ++ name ++ "`") place).advise
      ("available functions: " ++ ", ".intercalate (Builtin.all.map Builtin.name))
  | argumentCount f supplied place =>
    let plural := if f.arity = 1 then "" else "s"
    .ofCode .error .argumentCount
      ("function `" ++ f.name ++ "` takes " ++ toString f.arity ++ " argument" ++ plural ++
        " but " ++ toString supplied ++ " were supplied") place

end Fault

namespace Expr

/-- Reads from the front of a list of tokens and gives back the others. -/
abbrev Reader (α : Type) := List Lexeme → Except Fault (α × List Lexeme)

/-- The readers of one level. -/
structure Level where
  signed : Reader Expr
  sum : Reader Expr

/-- The level one further in, for the token that opens it. -/
abbrev Entry := Span → Except Fault Level

/-- More operands of left-associative operators. An operand takes at least one token. -/
def more (operand : Reader Expr) (op? : Token → Option BinaryOp) (lhs : Expr)
    (ts : List Lexeme) : Except Fault (Expr × List Lexeme) :=
  match ts with
  | [] => .ok (lhs, [])
  | t :: ts =>
    match op? t.token with
    | none => .ok (lhs, t :: ts)
    | some op => do
      let (rhs, rest) ← operand ts
      if rest.length ≤ ts.length then more operand op? (.binary op lhs rhs) rest
      else .ok (.binary op lhs rhs, rest)
termination_by ts.length
decreasing_by simp; omega

def leftAssociative (operand : Reader Expr) (op? : Token → Option BinaryOp) : Reader Expr :=
  fun ts => do
    let (lhs, ts) ← operand ts
    more operand op? lhs ts

/-- More arguments, each after a comma. -/
def moreArguments (sum : Reader Expr) (args : List Expr) (ts : List Lexeme) :
    Except Fault (List Expr × List Lexeme) :=
  match ts with
  | [] => .ok (args, [])
  | t :: ts =>
    if t.token = .comma then do
      let (arg, rest) ← sum ts
      if rest.length ≤ ts.length then moreArguments sum (args ++ [arg]) rest
      else .ok (args ++ [arg], rest)
    else .ok (args, t :: ts)
termination_by ts.length
decreasing_by simp; omega

def arguments (sum : Reader Expr) : Reader (List Expr) := fun ts => do
  let (arg, ts) ← sum ts
  moreArguments sum [arg] ts

/-- The parenthesis that closes the one at `opened`. -/
def closing (opened : Span) : Reader Span
  | [] => .error (.ended .closing (some opened))
  | t :: ts =>
    if t.token = .right then .ok (t.span, ts) else .error (.unexpected t .closing (some opened))

/-- A name that is not called: the variable or a constant. -/
def ofName (name : String) (place : Span) : Except Fault Expr :=
  if name = "x" then .ok .variable
  else match constant? name with
    | some v => .ok (.number v)
    | none =>
      match Builtin.ofName? name with
      | some f => .error (.uncalled f place)
      | none => .error (.unknownName name place)

/-- A call of the function `name`, from the parenthesis at `opened` on. -/
def callOf (enter : Entry) (name : String) (place opened : Span) : Reader Expr := fun ts =>
  match Builtin.ofName? name with
  | none => .error (.unknownFunction name place)
  | some f => do
    let inner ← enter opened
    let (args, ts) ← arguments inner.sum ts
    let (closed, ts) ← closing opened ts
    if args.length = f.arity then .ok (.call f args, ts)
    else .error (.argumentCount f args.length (place.union closed))

/-- A number, a name, a call, or a sum in parentheses. -/
def primary (enter : Entry) : Reader Expr
  | [] => .error (.ended .operand none)
  | t :: ts =>
    match t.token, ts with
    | .number v, ts => .ok (.number v, ts)
    | .left, ts => do
      let inner ← enter t.span
      let (e, ts) ← inner.sum ts
      let (_, ts) ← closing t.span ts
      .ok (e, ts)
    | .name n, u :: ts =>
      if u.token = .left then callOf enter n t.span u.span ts
      else (ofName n t.span).map (·, u :: ts)
    | .name n, [] => (ofName n t.span).map (·, [])
    | _, _ => .error (.unexpected t .operand none)

/-- A primary expression, raised to a signed exponent if a caret follows. -/
def power (enter : Entry) : Reader Expr := fun ts => do
  match ← primary enter ts with
  | (base, t :: ts) =>
    if t.token = .caret then do
      let inner ← enter t.span
      let (exponent, ts) ← inner.signed ts
      .ok (.binary .pow base exponent, ts)
    else .ok (base, t :: ts)
  | (base, []) => .ok (base, [])

/-- A power with any number of signs before it; a plus sign leaves no trace. -/
def signed (enter : Entry) : Reader Expr
  | [] => power enter []
  | t :: ts =>
    if t.token = .minus then do
      let inner ← enter t.span
      let (e, ts) ← inner.signed ts
      .ok (.neg e, ts)
    else if t.token = .plus then do
      let inner ← enter t.span
      inner.signed ts
    else power enter (t :: ts)

def product? : Token → Option BinaryOp
  | .star => some .mul
  | .slash => some .div
  | _ => none

def sum? : Token → Option BinaryOp
  | .plus => some .add
  | .minus => some .sub
  | _ => none

/-- The readers of a level that is entered from another one. -/
def level (enter : Entry) : Level where
  signed := signed enter
  sum := leftAssociative (leftAssociative (signed enter) product?) sum?

/-- The readers with room for so many levels further in. -/
def withRoom : Nat → Level
  | 0 => level fun place => .error (.tooDeep place)
  | room + 1 => level fun _ => .ok (withRoom room)

/-- Reads all of the tokens as one expression. -/
def parse (ts : List Lexeme) : Except Fault Expr :=
  match ts, ts[maxTokens]? with
  | _, some t => .error (.tooMany ts.length t.span)
  | [], none => .error .nothing
  | ts, none => do
    match ← (withRoom maxDepth).sum ts with
    | (e, []) => .ok e
    | (_, t :: _) => .error (.unexpected t .operator none)

end Expr

end Sketch
