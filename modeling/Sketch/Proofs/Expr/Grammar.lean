import Sketch.Expr.Parser

/-!
The grammar of expressions, as a relation between tokens and trees. From the loosest to the tightest
there are sums, products, signed powers, powers and primary expressions:

    sum     := product (('+' | '-') product)*
    product := signed (('*' | '/') signed)*
    signed  := ('-' | '+') signed | power
    power   := primary ('^' signed)?
    primary := number | name | name '(' sum (',' sum)* ')' | '(' sum ')'
-/

namespace Sketch.Expr

inductive Phrase
  | sum
  | product
  | signed
  | power
  | primary

/-- The tokens that are a phrase, the tree that they stand for, and a bound on how deep they nest:
parentheses, lists of arguments, signs and exponents each stand around something one level less
deep. -/
inductive Derives : Phrase → Nat → List Token → Expr → Prop
  | product {n ts e} : Derives .product n ts e → Derives .sum n ts e
  | add {n ts us e f} : Derives .sum n ts e → Derives .product n us f →
      Derives .sum n (ts ++ .plus :: us) (.binary .add e f)
  | sub {n ts us e f} : Derives .sum n ts e → Derives .product n us f →
      Derives .sum n (ts ++ .minus :: us) (.binary .sub e f)
  | signed {n ts e} : Derives .signed n ts e → Derives .product n ts e
  | mul {n ts us e f} : Derives .product n ts e → Derives .signed n us f →
      Derives .product n (ts ++ .star :: us) (.binary .mul e f)
  | div {n ts us e f} : Derives .product n ts e → Derives .signed n us f →
      Derives .product n (ts ++ .slash :: us) (.binary .div e f)
  | power {n ts e} : Derives .power n ts e → Derives .signed n ts e
  | minus {n ts e} : Derives .signed n ts e → Derives .signed (n + 1) (.minus :: ts) (.neg e)
  | plus {n ts e} : Derives .signed n ts e → Derives .signed (n + 1) (.plus :: ts) e
  | primary {n ts e} : Derives .primary n ts e → Derives .power n ts e
  | pow {n ts us e f} : Derives .primary (n + 1) ts e → Derives .signed n us f →
      Derives .power (n + 1) (ts ++ .caret :: us) (.binary .pow e f)
  | number {n} (v : Float) : Derives .primary n [.number v] (.number v)
  | var {n} : Derives .primary n [.name "x"] .variable
  | pi {n} : Derives .primary n [.name "pi"] (.number Builtin.pi)
  | euler {n} : Derives .primary n [.name "e"] (.number Builtin.euler)
  | call {n ts e} (f : Builtin) (others : List (List Token × Expr)) : Derives .sum n ts e →
      (∀ a ∈ others, Derives .sum n a.1 a.2) → others.length + 1 = f.arity →
      Derives .primary (n + 1)
        (.name f.name :: .left :: (ts ++ others.flatMap (fun a => .comma :: a.1)) ++ [.right])
        (.call f (e :: others.map (·.2)))
  | parens {n ts e} : Derives .sum n ts e → Derives .primary (n + 1) (.left :: ts ++ [.right]) e

namespace Derives

variable {k : Phrase} {m n : Nat} {ts : List Token} {e : Expr}

theorem succ (h : Derives k n ts e) : Derives k (n + 1) ts e := by
  induction h with
  | product _ ih => exact .product ih
  | add _ _ ih ih' => exact .add ih ih'
  | sub _ _ ih ih' => exact .sub ih ih'
  | signed _ ih => exact .signed ih
  | mul _ _ ih ih' => exact .mul ih ih'
  | div _ _ ih ih' => exact .div ih ih'
  | power _ ih => exact .power ih
  | minus _ ih => exact .minus ih
  | plus _ ih => exact .plus ih
  | primary _ ih => exact .primary ih
  | pow _ _ ih ih' => exact .pow ih ih'
  | number v => exact .number v
  | var => exact .var
  | pi => exact .pi
  | euler => exact .euler
  | call f others _ _ hf ih ih' => exact .call f others ih ih' hf
  | parens _ ih => exact .parens ih

/-- Tokens that do not nest deeper than one bound do not nest deeper than a larger one. -/
theorem mono (h : Derives k m ts e) (hn : m ≤ n) : Derives k n ts e := by
  induction hn with
  | refl => exact h
  | step _ ih => exact ih.succ

theorem ne_nil (h : Derives k n ts e) : ts ≠ [] := by
  induction h with
  | product _ ih => exact ih
  | signed _ ih => exact ih
  | power _ ih => exact ih
  | primary _ ih => exact ih
  | add | sub | mul | div | pow => exact List.append_ne_nil_of_right_ne_nil _ (List.cons_ne_nil _ _)
  | _ => exact List.cons_ne_nil _ _

/-- A sign is the start of no power, so a signed power is read by its first token. -/
theorem exists_eq_cons (h : Derives .power n ts e) :
    ∃ t us, ts = t :: us ∧ t ≠ .minus ∧ t ≠ .plus := by
  have hp : ∀ {ts e}, Derives .primary n ts e → ∃ t us, ts = t :: us ∧ t ≠ .minus ∧ t ≠ .plus := by
    intro ts e h
    cases h with
    | number v => exact ⟨_, _, rfl, Token.noConfusion, Token.noConfusion⟩
    | var => exact ⟨_, _, rfl, Token.noConfusion, Token.noConfusion⟩
    | pi => exact ⟨_, _, rfl, Token.noConfusion, Token.noConfusion⟩
    | euler => exact ⟨_, _, rfl, Token.noConfusion, Token.noConfusion⟩
    | call f others _ _ _ => exact ⟨_, _, rfl, Token.noConfusion, Token.noConfusion⟩
    | parens _ => exact ⟨_, _, rfl, Token.noConfusion, Token.noConfusion⟩
  cases h with
  | primary h => exact hp h
  | pow h h' =>
    obtain ⟨t, us, rfl, ht⟩ := hp h
    exact ⟨t, _, rfl, ht⟩

end Derives

end Sketch.Expr
