import Sketch.Expr.Parser

/-!
A formula is an expression together with the text it was read from.
-/

namespace Sketch

structure Formula where
  source : String
  expr : Expr

namespace Formula

/-- Reads a formula. The spans of a rejection are offsets into the text. -/
def ofText (source : String) : Except Rejection Formula := do
  let cs := source.toList
  let ts ← Lexeme.ofText cs
  match Expr.parse ts with
  | .ok expr => .ok ⟨source, expr⟩
  | .error fault => .error ⟨[fault.diagnostic (Text.size cs)]⟩

def eval (f : Formula) (x : Float) : Float := f.expr.eval x

end Formula

end Sketch
