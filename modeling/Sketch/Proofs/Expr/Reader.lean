import Sketch.Proofs.Expr.Grammar
import Sketch.Proofs.Failure

/-!
The readers of an expression, phrase by phrase. What a reader takes from the front of its tokens is a
phrase of the grammar, so it takes at least one token, and the loops over operators and arguments end.
-/

namespace Sketch.Expr

variable {operand : Reader Expr} {op? : Token → Option BinaryOp} {lhs : Expr} {t : Lexeme}
  {ts rest : List Lexeme} {n : Nat}

/-! ### Levels -/

/-- The entry into the levels of a level with so much room. -/
def entry : Nat → Entry
  | 0 => fun place => .error (.tooDeep place)
  | n + 1 => fun _ => .ok (withRoom n)

theorem withRoom_eq (n : Nat) : withRoom n = level (entry n) := by
  cases n with
  | zero => rfl
  | succ n => rfl

section Entering

variable {α : Type} {f : Level → Except Fault α} {a : α}

/-- One level further in there is room for one level less. -/
theorem entry_bind (n : Nat) (place : Span) (f : Level → Except Fault α) :
    entry (n + 1) place >>= f = f (withRoom n) := rfl

theorem exists_of_entry_bind_eq_ok {place : Span} (h : entry n place >>= f = .ok a) :
    ∃ m, n = m + 1 ∧ f (withRoom m) = .ok a := by
  cases n with
  | zero => contradiction
  | succ m => exact ⟨m, rfl, h⟩

end Entering

/-- The reader of a phrase on a level with so much room. -/
def reader (n : Nat) : Phrase → Reader Expr
  | .sum => (withRoom n).sum
  | .product => leftAssociative (signed (entry n)) product?
  | .signed => (withRoom n).signed
  | .power => power (entry n)
  | .primary => primary (entry n)

theorem reader_sum (n : Nat) : reader n .sum = leftAssociative (reader n .product) sum? := by
  rw [reader, withRoom_eq]
  rfl

theorem reader_signed (n : Nat) : reader n .signed = signed (entry n) := by
  rw [reader, withRoom_eq]
  rfl

theorem reader_product (n : Nat) : reader n .product = leftAssociative (reader n .signed) product? := by
  rw [reader_signed]
  rfl

/-! ### What the readers do with their first tokens -/

theorem head_cases (token : Token) (ts : List Lexeme) :
    (∃ place us, ts = ⟨token, place⟩ :: us) ∨ ∀ t ∈ ts.head?, t.token ≠ token := by
  cases ts with
  | nil => exact .inr fun t ht => by contradiction
  | cons t ts =>
    by_cases h : t.token = token
    · subst h
      exact .inl ⟨t.span, ts, rfl⟩
    · refine .inr fun u hu => ?_
      cases hu
      exact h

section Equations

variable (enter : Entry) (place : Span) {e : Expr}

theorem primary_left (ts : List Lexeme) : primary enter (⟨.left, place⟩ :: ts) = (do
    let inner ← enter place
    let p ← inner.sum ts
    let q ← closing place p.2
    .ok (p.1, q.2)) := rfl

theorem primary_name (name : String) (h : ∀ t ∈ ts.head?, t.token ≠ .left) :
    primary enter (⟨.name name, place⟩ :: ts) = (ofName name place).map (·, ts) := by
  cases ts with
  | nil => rfl
  | cons t ts => exact if_neg (h t rfl)

theorem primary_call (name : String) (opened : Span) (ts : List Lexeme) :
    primary enter (⟨.name name, place⟩ :: ⟨.left, opened⟩ :: ts) =
      callOf enter name place opened ts := rfl

variable {enter}

theorem power_of_caret (h : primary enter ts = .ok (e, ⟨.caret, place⟩ :: rest)) :
    power enter ts = (do
      let inner ← enter place
      let p ← inner.signed rest
      .ok (.binary .pow e p.1, p.2)) := by
  rw [power, h]
  rfl

theorem power_of_primary (h : primary enter ts = .ok (e, rest))
    (hc : ∀ t ∈ rest.head?, t.token ≠ .caret) : power enter ts = .ok (e, rest) := by
  rw [power, h]
  cases rest with
  | nil => rfl
  | cons t rest => exact if_neg (hc t rfl)

variable (enter)

theorem signed_minus (ts : List Lexeme) : signed enter (⟨.minus, place⟩ :: ts) = (do
    let inner ← enter place
    let p ← inner.signed ts
    .ok (.neg p.1, p.2)) := rfl

theorem signed_plus (ts : List Lexeme) : signed enter (⟨.plus, place⟩ :: ts) = (do
    let inner ← enter place
    inner.signed ts) := rfl

theorem signed_of_power (h : ∀ t ∈ ts.head?, t.token ≠ .minus ∧ t.token ≠ .plus) :
    signed enter ts = power enter ts := by
  cases ts with
  | nil => rfl
  | cons t ts =>
    obtain ⟨hm, hp⟩ := h t rfl
    rw [signed, if_neg hm, if_neg hp]

end Equations

/-! ### What is read is a phrase -/

/-- All that the reader takes from the front of its tokens is a phrase. -/
def Sound (P : List Token → Expr → Prop) (r : Reader Expr) : Prop :=
  ∀ ts e rest, r ts = .ok (e, rest) → ∃ taken, ts = taken ++ rest ∧ P (taken.map (·.token)) e

theorem Sound.length_le {P : List Token → Expr → Prop} {r : Reader Expr} {e : Expr} (hr : Sound P r)
    (h : r ts = .ok (e, rest)) : rest.length ≤ ts.length := by
  obtain ⟨taken, rfl, -⟩ := hr _ _ _ h
  rw [List.length_append]
  exact Nat.le_add_left ..

section Loops

variable {P Q : List Token → Expr → Prop} {e f : Expr}

theorem more_eq_self (h : ∀ t ∈ ts.head?, op? t.token = none) :
    more operand op? lhs ts = .ok (lhs, ts) := by
  cases ts with
  | nil => rw [more]
  | cons t ts => rw [more, h t rfl]

/-- The loop goes on with whatever an operand leaves, for that is never more than there was. -/
theorem more_cons (hr : Sound P operand) {op : BinaryOp} (ho : op? t.token = some op) :
    more operand op? lhs (t :: ts) =
      operand ts >>= fun p => more operand op? (.binary op lhs p.1) p.2 := by
  rw [more, ho]
  cases h : operand ts with
  | error fault => rfl
  | ok p => exact if_pos (hr.length_le h)

theorem moreArguments_eq_self {sum : Reader Expr} {args : List Expr}
    (h : ∀ t ∈ ts.head?, t.token ≠ .comma) : moreArguments sum args ts = .ok (args, ts) := by
  cases ts with
  | nil => rw [moreArguments]
  | cons t ts => rw [moreArguments, if_neg (h t rfl)]

theorem moreArguments_cons {sum : Reader Expr} (hr : Sound P sum) {args : List Expr}
    (ht : t.token = .comma) : moreArguments sum args (t :: ts) =
      sum ts >>= fun p => moreArguments sum (args ++ [p.1]) p.2 := by
  rw [moreArguments, if_pos ht]
  cases h : sum ts with
  | error fault => rfl
  | ok p => exact if_pos (hr.length_le h)

/-- Whatever stands in front, the loop adds operands to it. -/
theorem exists_of_more_eq_ok (hr : Sound P operand)
    (hq : ∀ front t us op e f, Q front e → op? t = some op → P us f →
      Q (front ++ t :: us) (.binary op e f))
    (h : more operand op? lhs ts = .ok (e, rest)) :
    ∃ taken, ts = taken ++ rest ∧
      ∀ front, Q front lhs → Q (front ++ taken.map (·.token)) e := by
  induction lhs, ts using more.induct op? with
  | case1 lhs =>
    rw [more] at h
    cases h
    refine ⟨[], rfl, fun front hf => ?_⟩
    rwa [List.map_nil, List.append_nil]
  | case2 lhs t ts ho =>
    rw [more, ho] at h
    cases h
    refine ⟨[], rfl, fun front hf => ?_⟩
    rwa [List.map_nil, List.append_nil]
  | case3 lhs t ts op ho ih =>
    rw [more_cons hr ho] at h
    obtain ⟨⟨rhs, mid⟩, hrhs, h⟩ := bind_eq_ok_iff.1 h
    obtain ⟨vs, rfl, hv⟩ := ih rhs mid (hr.length_le hrhs) h
    obtain ⟨us, rfl, hu⟩ := hr _ _ _ hrhs
    refine ⟨t :: us ++ vs, by simp, fun front hf => ?_⟩
    rw [List.map_append, ← List.append_assoc]
    exact hv _ (hq _ _ _ _ _ _ hf ho hu)

theorem Sound.leftAssociative (hr : Sound P operand) (hp : ∀ ts e, P ts e → Q ts e)
    (hq : ∀ front t us op e f, Q front e → op? t = some op → P us f →
      Q (front ++ t :: us) (.binary op e f)) : Sound Q (leftAssociative operand op?) := by
  intro ts e rest h
  obtain ⟨⟨lhs, mid⟩, hlhs, hmore⟩ := bind_eq_ok_iff.1 h
  obtain ⟨us, rfl, hu⟩ := hr _ _ _ hlhs
  obtain ⟨vs, rfl, hv⟩ := exists_of_more_eq_ok hr hq hmore
  refine ⟨us ++ vs, (List.append_assoc ..).symm, ?_⟩
  rw [List.map_append]
  exact hv _ (hp _ _ hu)

/-- The tokens of arguments after the first one. -/
def otherTokens (others : List (List Token × Expr)) : List Token :=
  others.flatMap fun a => .comma :: a.1

theorem exists_of_moreArguments_eq_ok {sum : Reader Expr} (hr : Sound P sum) {args es : List Expr}
    (h : moreArguments sum args ts = .ok (es, rest)) :
    ∃ taken others, ts = taken ++ rest ∧ taken.map (·.token) = otherTokens others ∧
      (∀ a ∈ others, P a.1 a.2) ∧ es = args ++ others.map (·.2) := by
  induction args, ts using moreArguments.induct with
  | case1 args =>
    rw [moreArguments] at h
    cases h
    exact ⟨[], [], rfl, rfl, List.forall_mem_nil _, (List.append_nil _).symm⟩
  | case2 args t ts ht ih =>
    rw [moreArguments_cons hr ht] at h
    obtain ⟨⟨arg, mid⟩, harg, h⟩ := bind_eq_ok_iff.1 h
    obtain ⟨vs, others, rfl, hv, hp, rfl⟩ := ih arg mid (hr.length_le harg) h
    obtain ⟨us, rfl, hu⟩ := hr _ _ _ harg
    refine ⟨t :: us ++ vs, (us.map (·.token), arg) :: others, by simp, ?_, ?_, by simp⟩
    · rw [List.map_append, hv, List.map_cons, ht]
      rfl
    · exact List.forall_mem_cons.2 ⟨hu, hp⟩
  | case3 args t ts ht =>
    rw [moreArguments, if_neg ht] at h
    cases h
    exact ⟨[], [], rfl, rfl, List.forall_mem_nil _, (List.append_nil _).symm⟩

end Loops

section Levels

variable {e : Expr}

theorem ofName?_name (f : Builtin) : Builtin.ofName? f.name = some f := by
  cases f <;> rfl

theorem name_of_ofName? {name : String} {f : Builtin} (h : Builtin.ofName? name = some f) :
    f.name = name :=
  of_decide_eq_true (List.find?_some (p := fun g : Builtin => decide (g.name = name)) h)

theorem derives_of_ofName {name : String} {place : Span} (h : ofName name place = .ok e) :
    Derives .primary n [.name name] e := by
  unfold ofName at h
  split at h
  · next hx =>
    cases h
    subst hx
    exact .var
  · split at h
    · next v hv =>
      cases h
      unfold constant? at hv
      split at hv
      · next hp =>
        cases hv
        subst hp
        exact .pi
      · split at hv
        · next he =>
          cases hv
          subst he
          exact .euler
        · contradiction
    · split at h
      · contradiction
      · contradiction

theorem exists_of_closing_eq_ok {opened closed : Span} (h : closing opened ts = .ok (closed, rest)) :
    ∃ place, ts = ⟨.right, place⟩ :: rest := by
  cases ts with
  | nil => contradiction
  | cons t ts =>
    obtain ⟨token, place⟩ := t
    by_cases ht : token = .right
    · subst ht
      cases h
      exact ⟨_, rfl⟩
    · rw [closing, if_neg ht] at h
      contradiction

/-- What is read on the level below is a phrase, for the phrases that stand there. -/
def SoundBelow (n : Nat) : Prop := ∀ m, n = m + 1 →
  Sound (Derives .sum m) (reader m .sum) ∧ Sound (Derives .signed m) (reader m .signed)

theorem exists_of_callOf_eq_ok (hb : SoundBelow n) {name : String} {place opened : Span}
    (h : callOf (entry n) name place opened ts = .ok (e, rest)) :
    ∃ taken, ts = taken ++ rest ∧
      Derives .primary n (.name name :: .left :: taken.map (·.token)) e := by
  unfold callOf at h
  split at h
  · contradiction
  · next f hf =>
    obtain ⟨m, rfl, hbody⟩ := exists_of_entry_bind_eq_ok h
    obtain ⟨⟨es, after⟩, hes, hend⟩ := bind_eq_ok_iff.1 hbody
    obtain ⟨⟨closed, behind⟩, hc, hcall⟩ := bind_eq_ok_iff.1 hend
    obtain ⟨⟨first, mid⟩, hfirst, hothers⟩ := bind_eq_ok_iff.1 hes
    obtain ⟨hs, -⟩ := hb m rfl
    obtain ⟨us, rfl, hu⟩ := hs _ _ _ hfirst
    obtain ⟨vs, others, rfl, hv, hp, rfl⟩ := exists_of_moreArguments_eq_ok hs hothers
    obtain ⟨bracket, rfl⟩ := exists_of_closing_eq_ok hc
    dsimp only at hcall
    split at hcall
    · next hl =>
      cases hcall
      refine ⟨us ++ vs ++ [⟨.right, bracket⟩], by simp, ?_⟩
      rw [← name_of_ofName? hf, List.map_append, List.map_append, hv]
      exact .call f others hu hp (by simpa [Nat.add_comm] using hl)
    · contradiction

theorem sound_primary (hb : SoundBelow n) : Sound (Derives .primary n) (reader n .primary) := by
  intro ts e rest h
  cases ts with
  | nil => contradiction
  | cons t ts =>
    obtain ⟨token, place⟩ := t
    change primary (entry n) (⟨token, place⟩ :: ts) = .ok (e, rest) at h
    cases token with
    | number v =>
      cases h
      exact ⟨[⟨.number v, place⟩], rfl, .number v⟩
    | name name =>
      rcases head_cases .left ts with ⟨opened, us, rfl⟩ | hl
      · rw [primary_call] at h
        obtain ⟨taken, rfl, hd⟩ := exists_of_callOf_eq_ok hb h
        exact ⟨⟨.name name, place⟩ :: ⟨.left, opened⟩ :: taken, rfl, hd⟩
      · rw [primary_name _ _ _ hl] at h
        cases hn : ofName name place with
        | error fault =>
          rw [hn] at h
          contradiction
        | ok e' =>
          rw [hn] at h
          cases h
          exact ⟨[⟨.name name, place⟩], rfl, derives_of_ofName hn⟩
    | left =>
      rw [primary_left] at h
      obtain ⟨m, rfl, hbody⟩ := exists_of_entry_bind_eq_ok h
      obtain ⟨⟨e', mid⟩, he, hend⟩ := bind_eq_ok_iff.1 hbody
      obtain ⟨⟨closed, behind⟩, hc, hpure⟩ := bind_eq_ok_iff.1 hend
      cases hpure
      obtain ⟨us, rfl, hu⟩ := (hb m rfl).1 _ _ _ he
      obtain ⟨bracket, rfl⟩ := exists_of_closing_eq_ok hc
      refine ⟨⟨.left, place⟩ :: us ++ [⟨.right, bracket⟩], by simp, ?_⟩
      rw [List.map_append]
      exact .parens hu
    | plus => contradiction
    | minus => contradiction
    | star => contradiction
    | slash => contradiction
    | caret => contradiction
    | right => contradiction
    | comma => contradiction

theorem sound_power (hb : SoundBelow n) : Sound (Derives .power n) (reader n .power) := by
  intro ts e rest h
  obtain ⟨⟨base, mid⟩, hbase, hend⟩ := (bind_eq_ok_iff (x := primary (entry n) ts)).1 h
  obtain ⟨us, rfl, hu⟩ := sound_primary hb _ _ _ hbase
  rcases head_cases .caret mid with ⟨place, vs, rfl⟩ | hc
  · change power (entry n) _ = .ok (e, rest) at h
    rw [power_of_caret place hbase] at h
    obtain ⟨m, rfl, hbody⟩ := exists_of_entry_bind_eq_ok h
    obtain ⟨⟨exponent, after⟩, hexp, hpure⟩ := bind_eq_ok_iff.1 hbody
    cases hpure
    obtain ⟨ws, rfl, hw⟩ := (hb m rfl).2 _ _ _ hexp
    refine ⟨us ++ ⟨.caret, place⟩ :: ws, by simp, ?_⟩
    rw [List.map_append]
    exact .pow hu hw
  · change power (entry n) _ = .ok (e, rest) at h
    rw [power_of_primary hbase hc] at h
    cases h
    exact ⟨us, rfl, .primary hu⟩

theorem sound_signed (hb : SoundBelow n) : Sound (Derives .signed n) (reader n .signed) := by
  rw [reader_signed]
  intro ts e rest h
  rcases head_cases .minus ts with ⟨place, us, rfl⟩ | hm
  · rw [signed_minus] at h
    obtain ⟨m, rfl, hbody⟩ := exists_of_entry_bind_eq_ok h
    obtain ⟨⟨operand, after⟩, hop, hpure⟩ := bind_eq_ok_iff.1 hbody
    cases hpure
    obtain ⟨vs, rfl, hv⟩ := (hb m rfl).2 _ _ _ hop
    exact ⟨⟨.minus, place⟩ :: vs, rfl, .minus hv⟩
  · rcases head_cases .plus ts with ⟨place, us, rfl⟩ | hp
    · rw [signed_plus] at h
      obtain ⟨m, rfl, hbody⟩ := exists_of_entry_bind_eq_ok h
      obtain ⟨vs, rfl, hv⟩ := (hb m rfl).2 _ _ _ hbody
      exact ⟨⟨.plus, place⟩ :: vs, rfl, .plus hv⟩
    · rw [signed_of_power _ fun t ht => ⟨hm t ht, hp t ht⟩] at h
      obtain ⟨us, rfl, hu⟩ := sound_power hb _ _ _ h
      exact ⟨us, rfl, .power hu⟩

theorem sound_product (hb : SoundBelow n) : Sound (Derives .product n) (reader n .product) := by
  rw [reader_product]
  refine (sound_signed hb).leftAssociative (fun _ _ h => .signed h) ?_
  intro front t us op e f he ho hf
  cases t with
  | star =>
    cases ho
    exact .mul he hf
  | slash =>
    cases ho
    exact .div he hf
  | _ => contradiction

theorem sound_sum (hb : SoundBelow n) : Sound (Derives .sum n) (reader n .sum) := by
  rw [reader_sum]
  refine (sound_product hb).leftAssociative (fun _ _ h => .product h) ?_
  intro front t us op e f he ho hf
  cases t with
  | plus =>
    cases ho
    exact .add he hf
  | minus =>
    cases ho
    exact .sub he hf
  | _ => contradiction

theorem soundBelow (n : Nat) : SoundBelow n := by
  induction n with
  | zero =>
    intro m hm
    contradiction
  | succ n ih =>
    intro m hm
    cases hm
    exact ⟨sound_sum ih, sound_signed ih⟩

/-- Whatever the reader of a phrase takes is such a phrase. -/
theorem sound_reader (n : Nat) (k : Phrase) : Sound (Derives k n) (reader n k) := by
  have hb := soundBelow n
  cases k with
  | sum => exact sound_sum hb
  | product => exact sound_product hb
  | signed => exact sound_signed hb
  | power => exact sound_power hb
  | primary => exact sound_primary hb

end Levels

end Sketch.Expr
