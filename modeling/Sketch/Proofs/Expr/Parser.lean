import Sketch.Proofs.Expr.Reader

/-!
Reading an expression is deriving it. A phrase is read whole wherever no token follows that would
continue it, so the tokens that are read as an expression are exactly those that the grammar derives,
within the limits on their number and on how deep they nest, and they stand for one tree.
-/

namespace Sketch.Expr

variable {operand : Reader Expr} {op? : Token → Option BinaryOp} {lhs : Expr} {t : Lexeme}
  {ts rest : List Lexeme} {n : Nat}

/-- The tokens that would continue a phrase. -/
def Phrase.continuations : Phrase → List Token
  | .primary => [.left]
  | .power | .signed => [.left, .caret]
  | .product => [.left, .caret, .star, .slash]
  | .sum => [.left, .caret, .star, .slash, .plus, .minus]

/-- No token follows that would continue the phrase. -/
def Stops (k : Phrase) (rest : List Lexeme) : Prop :=
  ∀ t ∈ rest.head?, t.token ∉ k.continuations

/-- The phrases between the operators of a phrase. -/
def Phrase.part : Phrase → Phrase
  | .sum => .product
  | .product => .signed
  | k => k

/-- What is left to do when the reader of a phrase has one that may go on. -/
def resume (n : Nat) : Phrase → Expr → Reader Expr
  | .sum, e => more (reader n .product) sum? e
  | .product, e => more (reader n .signed) product? e
  | _, e => fun ts => .ok (e, ts)

section Completeness

variable {k : Phrase} {e : Expr}

theorem stops_cons (place : Span) (rest : List Lexeme) {token : Token}
    (h : token ∉ k.continuations) : Stops k (⟨token, place⟩ :: rest) := by
  intro t ht
  cases ht
  exact h

theorem Stops.mono {j : Phrase} (h : Stops k rest) (hj : j.continuations ⊆ k.continuations) :
    Stops j rest :=
  fun t ht hm => h t ht (hj hm)

theorem Stops.part (h : Stops k rest) : Stops k.part rest := by
  cases k with
  | sum => exact h.mono (by decide)
  | product => exact h.mono (by decide)
  | signed => exact h
  | power => exact h
  | primary => exact h

theorem Stops.token_ne (h : Stops k rest) {token : Token} (hc : token ∈ k.continuations) :
    ∀ t ∈ rest.head?, t.token ≠ token := by
  rintro t ht rfl
  exact h t ht hc

theorem sum?_eq_none {token : Token} (h : token ∉ Phrase.sum.continuations) :
    sum? token = none := by
  cases token with
  | plus => exact absurd (by decide) h
  | minus => exact absurd (by decide) h
  | _ => rfl

theorem product?_eq_none {token : Token} (h : token ∉ Phrase.product.continuations) :
    product? token = none := by
  cases token with
  | star => exact absurd (by decide) h
  | slash => exact absurd (by decide) h
  | _ => rfl

theorem resume_eq (h : Stops k rest) (e : Expr) : resume n k e rest = .ok (e, rest) := by
  cases k with
  | sum => exact more_eq_self fun t ht => sum?_eq_none (h t ht)
  | product => exact more_eq_self fun t ht => product?_eq_none (h t ht)
  | signed => rfl
  | power => rfl
  | primary => rfl

theorem leftAssociative_eq (h : operand ts = .ok (e, rest)) :
    leftAssociative operand op? ts = more operand op? e rest := by
  rw [leftAssociative, h]
  rfl

/-- A loop that has come to an operator goes on behind the operand that follows it. -/
theorem more_append (hr : Sound (Derives k n) (reader n k)) {op : BinaryOp}
    (ho : op? t.token = some op) (h : reader n k ts = .ok (e, rest)) :
    more (reader n k) op? lhs (t :: ts) = more (reader n k) op? (.binary op lhs e) rest := by
  rw [more_cons hr ho, h]
  rfl

/-- Tokens are read as this phrase wherever they stand, unless they go on behind it. -/
def IsRead (k : Phrase) (n : Nat) (us : List Token) (e : Expr) : Prop :=
  ∀ ls rest, ls.map (·.token) = us → Stops k.part rest →
    reader n k (ls ++ rest) = resume n k e rest

theorem IsRead.reader_eq {us : List Token} (h : IsRead k n us e) {ls : List Lexeme}
    (hl : ls.map (·.token) = us) (hs : Stops k rest) :
    reader n k (ls ++ rest) = .ok (e, rest) := by
  rw [h ls rest hl hs.part, resume_eq hs]

/-- An argument ends at the comma of the next one, and the last one at the closing parenthesis. -/
theorem stops_otherTokens {others : List (List Token × Expr)} {ls : List Lexeme}
    (hl : ls.map (·.token) = otherTokens others) (place : Span) :
    Stops .sum (ls ++ ⟨.right, place⟩ :: rest) := by
  cases others with
  | nil =>
    obtain rfl := List.map_eq_nil_iff.1 hl
    exact stops_cons _ _ (by decide)
  | cons a others =>
    obtain ⟨⟨_, comma⟩, us, rfl, rfl, -⟩ := List.map_eq_cons_iff.1 hl
    exact stops_cons _ _ (by decide)

theorem moreArguments_append {others : List (List Token × Expr)}
    (ho : ∀ a ∈ others, IsRead .sum n a.1 a.2) {ls : List Lexeme}
    (hl : ls.map (·.token) = otherTokens others) (args : List Expr) (place : Span) :
    moreArguments (reader n .sum) args (ls ++ ⟨.right, place⟩ :: rest) =
      .ok (args ++ others.map (·.2), ⟨.right, place⟩ :: rest) := by
  induction others generalizing ls args with
  | nil =>
    obtain rfl := List.map_eq_nil_iff.1 hl
    rw [List.map_nil, List.append_nil]
    refine moreArguments_eq_self fun t ht => ?_
    cases ht
    exact Token.noConfusion
  | cons a others ih =>
    obtain ⟨t, us, rfl, ht, hu⟩ := List.map_eq_cons_iff.1 hl
    obtain ⟨vs, ws, rfl, hv, hw⟩ := List.map_eq_append_iff.1 hu
    obtain ⟨ha, ho⟩ := List.forall_mem_cons.1 ho
    rw [List.cons_append, moreArguments_cons (sound_reader n .sum) ht, List.append_assoc,
      ha.reader_eq hv (stops_otherTokens hw place)]
    refine (ih ho hw (args ++ [a.2])).trans ?_
    rw [List.append_assoc]
    rfl

theorem callOf_eq_ok {f : Builtin} {args : List Expr} {bracket : Span} (place opened : Span)
    (h : arguments (reader n .sum) ts = .ok (args, ⟨.right, bracket⟩ :: rest))
    (hf : args.length = f.arity) :
    callOf (entry (n + 1)) f.name place opened ts = .ok (.call f args, rest) := by
  rw [callOf, ofName?_name]
  refine (entry_bind n opened _).trans ((bind_of_eq_ok h).trans ?_)
  exact (bind_of_eq_ok rfl).trans (if_pos hf)

/-- A chain grows at its end: there the loop has read the front already. -/
theorem IsRead.append {us vs : List Token} {token : Token} {op : BinaryOp} {f : Expr}
    (hk : ∀ e, resume n k e = more (reader n k.part) op? e) (h : IsRead k n us e)
    (h' : IsRead k.part n vs f) (ho : op? token = some op)
    (hc : token ∉ k.part.continuations) :
    IsRead k n (us ++ token :: vs) (.binary op e f) := by
  intro ls rest hl hs
  obtain ⟨front, back, rfl, hf, hb⟩ := List.map_eq_append_iff.1 hl
  obtain ⟨⟨_, place⟩, ws, rfl, rfl, hw⟩ := List.map_eq_cons_iff.1 hb
  rw [List.append_assoc, List.cons_append, h front _ hf (stops_cons _ _ hc), hk, hk]
  exact more_append (sound_reader n k.part) ho (h'.reader_eq hw hs)

theorem isRead_name {name : String} (h : ∀ place, ofName name place = .ok e) :
    IsRead .primary n [.name name] e := by
  intro ls rest hl hs
  obtain ⟨⟨_, place⟩, us, rfl, rfl, hu⟩ := List.map_eq_cons_iff.1 hl
  obtain rfl := List.map_eq_nil_iff.1 hu
  refine (primary_name _ place name (hs.token_ne (by decide))).trans ?_
  rw [h]
  rfl

theorem isRead_of_derives {us : List Token} (h : Derives k n us e) : IsRead k n us e := by
  induction h with
  | product _ ih =>
    intro ls rest hl hs
    rw [reader_sum, leftAssociative_eq (ih.reader_eq hl hs)]
    rfl
  | add _ _ ih ih' => exact ih.append (fun _ => rfl) ih' rfl (by decide)
  | sub _ _ ih ih' => exact ih.append (fun _ => rfl) ih' rfl (by decide)
  | signed _ ih =>
    intro ls rest hl hs
    rw [reader_product, leftAssociative_eq (ih.reader_eq hl hs)]
    rfl
  | mul _ _ ih ih' => exact ih.append (fun _ => rfl) ih' rfl (by decide)
  | div _ _ ih ih' => exact ih.append (fun _ => rfl) ih' rfl (by decide)
  | power h ih =>
    intro ls rest hl hs
    obtain ⟨_, us, rfl, ht⟩ := h.exists_eq_cons
    obtain ⟨t, vs, rfl, rfl, hv⟩ := List.map_eq_cons_iff.1 hl
    rw [reader_signed, signed_of_power]
    · exact ih _ rest hl hs
    · intro u hu
      cases hu
      exact ht
  | @minus n _ e _ ih =>
    intro ls rest hl hs
    obtain ⟨⟨_, place⟩, us, rfl, rfl, hu⟩ := List.map_eq_cons_iff.1 hl
    have hr : (withRoom n).signed (us ++ rest) = .ok (e, rest) := ih.reader_eq hu hs
    rw [reader_signed, List.cons_append, signed_minus]
    exact (entry_bind n place _).trans (bind_of_eq_ok hr)
  | @plus n _ e _ ih =>
    intro ls rest hl hs
    obtain ⟨⟨_, place⟩, us, rfl, rfl, hu⟩ := List.map_eq_cons_iff.1 hl
    rw [reader_signed, List.cons_append, signed_plus]
    exact (entry_bind n place _).trans (ih.reader_eq hu hs)
  | primary _ ih =>
    intro ls rest hl hs
    exact power_of_primary (ih.reader_eq hl (hs.mono (by decide))) (hs.token_ne (by decide))
  | @pow n us vs e f _ _ ih ih' =>
    intro ls rest hl hs
    obtain ⟨front, back, rfl, hf, hb⟩ := List.map_eq_append_iff.1 hl
    obtain ⟨⟨_, place⟩, ws, rfl, rfl, hw⟩ := List.map_eq_cons_iff.1 hb
    have hr : (withRoom n).signed (ws ++ rest) = .ok (f, rest) := ih'.reader_eq hw hs
    rw [List.append_assoc, List.cons_append]
    refine (power_of_caret place (ih.reader_eq hf (stops_cons _ _ (by decide)))).trans ?_
    exact (entry_bind n place _).trans (bind_of_eq_ok hr)
  | number v =>
    intro ls rest hl hs
    obtain ⟨⟨_, place⟩, us, rfl, rfl, hu⟩ := List.map_eq_cons_iff.1 hl
    obtain rfl := List.map_eq_nil_iff.1 hu
    rfl
  | var => exact isRead_name fun place => rfl
  | pi => exact isRead_name fun place => rfl
  | euler => exact isRead_name fun place => rfl
  | @call n us e f others _ _ hf ih ih' =>
    intro ls rest hl hs
    obtain ⟨front, back, rfl, hfront, hb⟩ := List.map_eq_append_iff.1 hl
    obtain ⟨⟨_, bracket⟩, _, rfl, rfl, hn⟩ := List.map_eq_cons_iff.1 hb
    obtain rfl := List.map_eq_nil_iff.1 hn
    obtain ⟨⟨_, place⟩, mid, rfl, rfl, hm⟩ := List.map_eq_cons_iff.1 hfront
    obtain ⟨⟨_, opened⟩, inside, rfl, rfl, hi⟩ := List.map_eq_cons_iff.1 hm
    obtain ⟨vs, ws, rfl, hv, hw⟩ := List.map_eq_append_iff.1 hi
    have hargs : arguments (reader n .sum) (vs ++ (ws ++ ⟨.right, bracket⟩ :: rest)) =
        .ok (e :: others.map (·.2), ⟨.right, bracket⟩ :: rest) :=
      (bind_of_eq_ok (ih.reader_eq hv (stops_otherTokens hw bracket))).trans
        (moreArguments_append ih' hw [e] bracket)
    have hlength : (e :: others.map (·.2)).length = f.arity := by
      rw [List.length_cons, List.length_map, hf]
    rw [List.append_assoc, List.cons_append, List.cons_append, List.append_assoc]
    exact (primary_call _ place f.name opened _).trans (callOf_eq_ok place opened hargs hlength)
  | @parens n us e _ ih =>
    intro ls rest hl hs
    obtain ⟨front, back, rfl, hf, hb⟩ := List.map_eq_append_iff.1 hl
    obtain ⟨⟨_, place⟩, ws, rfl, rfl, hw⟩ := List.map_eq_cons_iff.1 hf
    obtain ⟨⟨_, bracket⟩, _, rfl, rfl, hn⟩ := List.map_eq_cons_iff.1 hb
    obtain rfl := List.map_eq_nil_iff.1 hn
    have hr : (withRoom n).sum (ws ++ ⟨.right, bracket⟩ :: rest) =
        .ok (e, ⟨.right, bracket⟩ :: rest) := ih.reader_eq hw (stops_cons _ _ (by decide))
    rw [List.append_assoc, List.cons_append]
    refine (primary_left _ place _).trans ((entry_bind n place _).trans ?_)
    exact (bind_of_eq_ok hr).trans (bind_of_eq_ok rfl)

end Completeness

/-! ### The tokens of an expression -/

section Whole

variable {k : Phrase} {e f : Expr} {us : List Token}

/-- Every reading takes a token, so that no loop over readings goes on for ever. -/
theorem length_lt_of_reader_eq_ok (h : reader n k ts = .ok (e, rest)) :
    rest.length < ts.length := by
  obtain ⟨taken, rfl, hd⟩ := sound_reader n k _ _ _ h
  rw [List.length_append]
  exact Nat.lt_add_of_pos_left (List.length_pos_iff.2 fun hn => hd.ne_nil (by rw [hn]; rfl))

theorem reader_eq_ok_iff :
    reader n k ts = .ok (e, []) ↔ Derives k n (ts.map (·.token)) e := by
  constructor
  · intro h
    obtain ⟨taken, rfl, hd⟩ := sound_reader n k _ _ _ h
    rwa [List.append_nil]
  · intro h
    have hstop : Stops k [] := fun t ht => by contradiction
    have hr := (isRead_of_derives h).reader_eq rfl hstop
    rwa [List.append_nil] at hr

/-- The same tokens stand for one tree, however deep they may nest. -/
theorem Derives.unique {m : Nat} (h : Derives k m us e) (h' : Derives k n us f) : e = f := by
  let ls : List Lexeme := us.map (⟨·, .empty 0⟩)
  have hl : ls.map (·.token) = us := (List.map_map ..).trans (List.map_id us)
  have hr : reader (max m n) k ls = .ok (e, []) :=
    reader_eq_ok_iff.2 (hl ▸ h.mono (Nat.le_max_left m n))
  have hr' : reader (max m n) k ls = .ok (f, []) :=
    reader_eq_ok_iff.2 (hl ▸ h'.mono (Nat.le_max_right m n))
  cases hr.symm.trans hr'
  rfl

theorem parse_eq_error_of_lt (h : maxTokens < ts.length) : ∃ fault, parse ts = .error fault := by
  refine ⟨.tooMany ts.length ts[maxTokens].span, ?_⟩
  rw [parse]
  exact List.getElem?_eq_getElem h

theorem parse_of_length_le (h : ts.length ≤ maxTokens) (hn : ts ≠ []) :
    parse ts = reader maxDepth .sum ts >>= fun p =>
      match p with
      | (e, []) => .ok e
      | (_, t :: _) => .error (.unexpected t .operator none) := by
  unfold parse
  split
  · next t ht =>
    rw [List.getElem?_eq_none h] at ht
    contradiction
  · contradiction
  · rfl

end Whole

end Sketch.Expr
