import Sketch.Number.Notation
import Sketch.Text.Lines

/-!
Files of settings in a part of TOML: tables with bare names, and keys with bare names whose values
are decimal numbers, texts or flags. What lies outside this part, such as arrays, dates and nested
tables, is turned down like a malformed file.
-/

namespace Sketch.Toml

inductive Value
  | integer (value : Int)
  | float (value : Float)
  | text (value : String)
  | flag (value : Bool)

structure Table where
  name : String
  entries : List (String × Value) := []

/-- The entries before any table, and the tables in order. -/
structure File where
  entries : List (String × Value) := []
  tables : List Table := []

/-- Space and tab, the blanks within a line. -/
def isBlank (c : Char) : Bool := c = ' ' || c = '\t'

/-- The characters of a bare name. -/
def isBare (c : Char) : Bool := c.isAlphanum || c = '_' || c = '-'

/-- Nothing but a comment follows on the line. -/
def atEnd (cs : List Char) : Bool :=
  match cs.dropWhile isBlank with
  | [] => true
  | c :: _ => c = '#'

/-- A bare name with blanks around it, and what follows. -/
def readName? (cs : List Char) : Option (String × List Char) :=
  let (name, rest) := (cs.dropWhile isBlank).span isBare
  if name = [] then none else some (.ofList name, rest.dropWhile isBlank)

/-- The character that stands for itself or for a blank or a control character after a backslash. -/
def escaped? : Char → Option Char
  | '"' => some '"'
  | '\\' => some '\\'
  | 'b' => some '\x08'
  | 't' => some '\t'
  | 'n' => some '\n'
  | 'f' => some '\x0c'
  | 'r' => some '\r'
  | _ => none

def hexDigit? (c : Char) : Option Nat :=
  if c.isDigit then some (c.toNat - '0'.toNat)
  else if 'a' ≤ c.toLower ∧ c.toLower ≤ 'f' then some (c.toLower.toNat - 'a'.toNat + 10)
  else none

/-- The character whose code point has these hexadecimal digits. -/
def ofHex? (cs : List Char) : Option Char := do
  let digits ← cs.mapM hexDigit?
  let point := digits.foldl (16 * · + ·) 0
  if point.isValidChar then some (.ofNat point) else none

/-- The rest of a text with escapes, and what follows its closing quote. -/
def readQuoted? : List Char → Option (List Char × List Char)
  | [] => none
  | '"' :: cs => some ([], cs)
  | '\\' :: 'u' :: c₁ :: c₂ :: c₃ :: c₄ :: cs => do
    let c ← ofHex? [c₁, c₂, c₃, c₄]
    let (text, rest) ← readQuoted? cs
    return (c :: text, rest)
  | '\\' :: c :: cs => do
    let c ← escaped? c
    let (text, rest) ← readQuoted? cs
    return (c :: text, rest)
  | c :: cs => do
    let (text, rest) ← readQuoted? cs
    return (c :: text, rest)

/-- A number or a flag. Numbers start with a digit after the sign, and with zero only before a point
or an exponent; a point stands between digits. Integers have 64 bits. -/
def ofWord? (word : List Char) : Option Value :=
  let (negative, cs) := Decimal.readSign word
  let (whole, rest) := cs.span Char.isDigit
  if word = "true".toList then some (.flag true)
  else if word = "false".toList then some (.flag false)
  else if cs = "inf".toList ∨ cs = "nan".toList then (Number.read? word).map .float
  else if whole = [] ∨ (whole.head? = some '0' ∧ 1 < whole.length) then none
  else match rest with
    | [] =>
      let n : Int := Decimal.natOfDigits whole
      let n := if negative then -n else n
      if Int64.minValue.toInt ≤ n ∧ n ≤ Int64.maxValue.toInt then some (.integer n) else none
    | '.' :: cs => if cs.head?.any Char.isDigit then (Number.read? word).map .float else none
    | _ => (Number.read? word).map .float

def readValue? : List Char → Option (Value × List Char)
  | '"' :: cs => (readQuoted? cs).map fun (text, rest) => (.text (.ofList text), rest)
  | '\'' :: cs => (Text.splitFirst? '\'' cs).map fun (text, rest) => (.text (.ofList text), rest)
  | cs =>
    let (word, rest) := cs.span fun c => !isBlank c && c ≠ '#'
    (ofWord? word).map fun value => (value, rest)

/-- What a line says. -/
inductive Line
  | blank
  | table (name : String)
  | entry (key : String) (value : Value)

def Line.read? (cs : List Char) : Option Line := do
  if atEnd cs then return .blank
  match cs.dropWhile isBlank with
  | '[' :: cs =>
    let (name, rest) ← readName? cs
    match rest with
    | ']' :: rest => if atEnd rest then some (.table name) else none
    | _ => none
  | cs =>
    let (key, rest) ← readName? cs
    match rest with
    | '=' :: rest =>
      let (value, rest) ← readValue? (rest.dropWhile isBlank)
      if atEnd rest then some (.entry key value) else none
    | _ => none

/-- Adds an entry unless its key is taken. -/
def addEntry? (entries : List (String × Value)) (key : String) (value : Value) :
    Option (List (String × Value)) :=
  if (entries.lookup key).isSome then none else some (entries ++ [(key, value)])

namespace File

def table? (f : File) (name : String) : Option Table := f.tables.find? (·.name = name)

/-- Takes in a line. A table is opened once, and by a name that is no key. -/
def add? (f : File) : Line → Option File
  | .blank => some f
  | .table name =>
    if (f.table? name).isSome ∨ (f.entries.lookup name).isSome then none
    else some { f with tables := f.tables ++ [{ name }] }
  | .entry key value =>
    match f.tables.getLast? with
    | none => do return { f with entries := ← addEntry? f.entries key value }
    | some t => do
      let t := { t with entries := ← addEntry? t.entries key value }
      return { f with tables := f.tables.dropLast ++ [t] }

def ofText? (text : String) : Option File :=
  (Text.lines text.toList).foldlM (fun f line => Line.read? (Text.withoutBreak line) >>= f.add?) {}

end File

end Sketch.Toml
