import Sketch.Proofs.Expr.Reader

/-!
What the readers of an expression find fault with. The places that a fault speaks of are those of the
tokens that were read, or reach from one token to another.
-/

namespace Sketch

/-- Every place that the fault speaks of is of the kind. -/
def Fault.Within (P : Span → Prop) : Fault → Prop
  | .nothing => True
  | .ended _ opened => ∀ s ∈ opened, P s
  | .unexpected found _ opened => P found.span ∧ ∀ s ∈ opened, P s
  | .tooMany _ place | .tooDeep place | .uncalled _ place | .unknownName _ place
  | .unknownFunction _ place | .argumentCount _ _ place => P place

namespace Expr

variable {α β : Type} {P : Span → Prop} {x : Except Fault α} {f : α → Except Fault β}
  {ts rest : List Lexeme} {n : Nat}

/-- If there is a fault, it is about places of the kind. -/
def Blames (P : Span → Prop) (x : Except Fault α) : Prop :=
  ∀ fault, x = .error fault → fault.Within P

theorem Blames.ok (a : α) : Blames P (.ok a) := fun _ h => by contradiction

theorem Blames.error {fault : Fault} (h : fault.Within P) : Blames P (.error fault : Except Fault α) := by
  intro other ho
  cases ho
  exact h

theorem Blames.bind (hx : Blames P x) (hf : ∀ a, x = .ok a → Blames P (f a)) : Blames P (x >>= f) := by
  cases x with
  | error fault => exact .error (hx fault rfl)
  | ok a => exact hf a rfl

/-- All of the tokens stand at places of the kind. -/
def Placed (P : Span → Prop) (ts : List Lexeme) : Prop := ∀ t ∈ ts, P t.span

theorem Placed.of_cons {t : Lexeme} (h : Placed P (t :: ts)) : P t.span ∧ Placed P ts :=
  List.forall_mem_cons.1 h

/-- The reader blames only the tokens that it is given. -/
def BlamesTokens (P : Span → Prop) (r : Reader α) : Prop := ∀ ts, Placed P ts → Blames P (r ts)

theorem Sound.placed {Q : List Token → Expr → Prop} {r : Reader Expr} {e : Expr} (hr : Sound Q r)
    (h : r ts = .ok (e, rest)) (hts : Placed P ts) : Placed P rest := by
  obtain ⟨taken, rfl, -⟩ := hr _ _ _ h
  exact fun t ht => hts t (List.mem_append_right _ ht)

/-! ### Loops -/

section Loops

variable {Q : List Token → Expr → Prop} {operand sum : Reader Expr} {op? : Token → Option BinaryOp}

theorem blames_more (hq : Sound Q operand) (h : BlamesTokens P operand) (lhs : Expr)
    (hts : Placed P ts) : Blames P (more operand op? lhs ts) := by
  induction lhs, ts using more.induct op? with
  | case1 lhs =>
    rw [more]
    exact .ok _
  | case2 lhs t ts ho =>
    rw [more, ho]
    exact .ok _
  | case3 lhs t ts op ho ih =>
    rw [more_cons hq ho]
    refine (h ts hts.of_cons.2).bind fun p hp => ?_
    exact ih p.1 p.2 (hq.length_le hp) (hq.placed hp hts.of_cons.2)

theorem blames_leftAssociative (hq : Sound Q operand) (h : BlamesTokens P operand) :
    BlamesTokens P (leftAssociative operand op?) := fun ts hts =>
  (h ts hts).bind fun _ hp => blames_more hq h _ (hq.placed hp hts)

theorem blames_moreArguments (hq : Sound Q sum) (h : BlamesTokens P sum) (args : List Expr)
    (hts : Placed P ts) : Blames P (moreArguments sum args ts) := by
  induction args, ts using moreArguments.induct with
  | case1 args =>
    rw [moreArguments]
    exact .ok _
  | case2 args t ts ht ih =>
    rw [moreArguments_cons hq ht]
    refine (h ts hts.of_cons.2).bind fun p hp => ?_
    exact ih p.1 p.2 (hq.length_le hp) (hq.placed hp hts.of_cons.2)
  | case3 args t ts ht =>
    rw [moreArguments, if_neg ht]
    exact .ok _

theorem blames_arguments (hq : Sound Q sum) (h : BlamesTokens P sum) :
    BlamesTokens P (arguments sum) := fun ts hts =>
  (h ts hts).bind fun _ hp => blames_moreArguments hq h _ (hq.placed hp hts)

theorem placed_of_arguments (hq : Sound Q sum) {es : List Expr}
    (h : arguments sum ts = .ok (es, rest)) (hts : Placed P ts) : Placed P rest := by
  obtain ⟨⟨e, mid⟩, he, hmore⟩ := bind_eq_ok_iff.1 h
  obtain ⟨taken, -, rfl, -⟩ := exists_of_moreArguments_eq_ok hq hmore
  exact fun t ht => hq.placed he hts t (List.mem_append_right _ ht)

end Loops

/-! ### Levels -/

theorem blames_closing {opened : Span} (ho : P opened) : BlamesTokens P (closing opened) := by
  have hopened : ∀ s ∈ some opened, P s := fun s hs => Option.mem_some.1 hs ▸ ho
  intro ts hts
  cases ts with
  | nil => exact .error hopened
  | cons t ts =>
    rw [closing]
    split
    · exact .ok _
    · exact .error ⟨hts.of_cons.1, hopened⟩

theorem placed_of_closing {opened closed : Span} (h : closing opened ts = .ok (closed, rest))
    (hts : Placed P ts) : P closed ∧ Placed P rest := by
  cases ts with
  | nil => contradiction
  | cons t ts =>
    rw [closing] at h
    split at h
    · cases h
      exact hts.of_cons
    · contradiction

theorem blames_ofName (name : String) {place : Span} (h : P place) : Blames P (ofName name place) := by
  unfold ofName
  split
  · exact .ok _
  · split
    · exact .ok _
    · split
      · exact .error h
      · exact .error h

theorem blames_ofName_map (name : String) {place : Span} (h : P place) (ts : List Lexeme) :
    Blames P ((ofName name place).map (·, ts)) := by
  have := blames_ofName name h
  cases hn : ofName name place with
  | error fault => exact .error (this fault hn)
  | ok e => exact .ok _

theorem blames_entry_bind {place : Span} {f : Level → Except Fault α} (h : P place)
    (hf : ∀ m, n = m + 1 → Blames P (f (withRoom m))) : Blames P (entry n place >>= f) := by
  cases n with
  | zero => exact .error h
  | succ m => exact hf m rfl

/-- What is read on the level below blames only its tokens, for the phrases that stand there. -/
def BlamesBelow (P : Span → Prop) (n : Nat) : Prop := ∀ m, n = m + 1 →
  BlamesTokens P (reader m .sum) ∧ BlamesTokens P (reader m .signed)

section Levels

variable (hu : ∀ s t, P s → P t → P (s.union t)) (hb : BlamesBelow P n)
include hu hb

theorem blames_callOf (name : String) {place opened : Span} (hp : P place) (ho : P opened) :
    BlamesTokens P (callOf (entry n) name place opened) := by
  intro ts hts
  unfold callOf
  split
  · exact .error hp
  · refine blames_entry_bind ho fun m hm => ?_
    have hq := sound_reader m .sum
    refine (blames_arguments hq (hb m hm).1 ts hts).bind fun ⟨args, mid⟩ hargs => ?_
    have hmid := placed_of_arguments hq hargs hts
    refine (blames_closing ho mid hmid).bind fun ⟨closed, after⟩ hclosed => ?_
    dsimp only
    split
    · exact .ok _
    · exact .error (hu _ _ hp (placed_of_closing hclosed hmid).1)

theorem blames_primary : BlamesTokens P (reader n .primary) := by
  intro ts hts
  cases ts with
  | nil =>
    have hended : (Fault.ended .operand none).Within P := fun s hs => by contradiction
    exact Blames.error hended
  | cons t ts =>
    obtain ⟨token, place⟩ := t
    obtain ⟨hp, htail⟩ := hts.of_cons
    have hother : Blames P (.error (.unexpected ⟨token, place⟩ .operand none) :
        Except Fault (Expr × List Lexeme)) := .error ⟨hp, fun s hs => by contradiction⟩
    cases token with
    | number v => exact .ok _
    | left =>
      refine blames_entry_bind hp fun m hm => ?_
      refine ((hb m hm).1 ts htail).bind fun p hr => ?_
      have hrest := (sound_reader m .sum).placed hr htail
      exact (blames_closing hp _ hrest).bind fun _ _ => .ok _
    | name name =>
      rcases head_cases .left ts with ⟨opened, us, rfl⟩ | hl
      · obtain ⟨ho, hus⟩ := htail.of_cons
        exact blames_callOf hu hb name hp ho us hus
      · rw [reader, primary_name (entry n) place name hl]
        exact blames_ofName_map name hp ts
    | plus => exact hother
    | minus => exact hother
    | star => exact hother
    | slash => exact hother
    | caret => exact hother
    | right => exact hother
    | comma => exact hother

theorem blames_power : BlamesTokens P (reader n .power) := by
  intro ts hts
  refine (blames_primary hu hb ts hts).bind fun p hp => ?_
  obtain ⟨base, mid⟩ := p
  have hmid := (sound_reader n .primary).placed hp hts
  cases mid with
  | nil => exact .ok _
  | cons t mid =>
    dsimp only
    split
    · refine blames_entry_bind hmid.of_cons.1 fun m hm => ?_
      exact ((hb m hm).2 mid hmid.of_cons.2).bind fun _ _ => .ok _
    · exact .ok _

theorem blames_signed : BlamesTokens P (reader n .signed) := by
  rw [reader_signed]
  intro ts hts
  cases ts with
  | nil => exact blames_power hu hb [] hts
  | cons t ts =>
    obtain ⟨hp, htail⟩ := hts.of_cons
    rw [signed]
    split
    · refine blames_entry_bind hp fun m hm => ?_
      exact ((hb m hm).2 ts htail).bind fun _ _ => .ok _
    · split
      · exact blames_entry_bind hp fun m hm => (hb m hm).2 ts htail
      · exact blames_power hu hb (t :: ts) hts

theorem blames_sum : BlamesTokens P (reader n .sum) := by
  rw [reader_sum]
  refine blames_leftAssociative (sound_reader n .product) ?_
  rw [reader_product]
  exact blames_leftAssociative (sound_reader n .signed) (blames_signed hu hb)

end Levels

variable (hu : ∀ s t, P s → P t → P (s.union t))
include hu

theorem blamesBelow (n : Nat) : BlamesBelow P n := by
  induction n with
  | zero =>
    intro m hm
    contradiction
  | succ n ih =>
    intro m hm
    cases hm
    exact ⟨blames_sum hu ih, blames_signed hu ih⟩

/-- Whatever is wrong with an expression, it is at its tokens. -/
theorem blames_parse (hts : Placed P ts) : Blames P (parse ts) := by
  unfold parse
  split
  · next t ht => exact .error (hts t (List.mem_of_getElem? ht))
  · exact .error trivial
  · refine (blames_sum hu (blamesBelow hu maxDepth) _ hts).bind fun ⟨e, rest⟩ he => ?_
    have hrest := (sound_reader maxDepth .sum).placed he hts
    cases rest with
    | nil => exact .ok _
    | cons t rest => exact .error ⟨hrest.of_cons.1, fun s hs => by contradiction⟩

end Expr

namespace Fault

variable {P : Span → Prop} {length : Nat}

theorem severity_diagnostic (length : Nat) (fault : Fault) :
    (fault.diagnostic length).severity = .error := by
  cases fault with
  | ended wanted opened => cases opened <;> rfl
  | unexpected found wanted opened => cases opened <;> rfl
  | _ => rfl

theorem code_diagnostic (length : Nat) (fault : Fault) : ∃ c, (fault.diagnostic length).code = some c ∧
    c.number ∈ ["E100", "E101", "E102", "E103", "E104", "E105"] := by
  cases fault with
  | nothing => exact ⟨_, rfl, by decide⟩
  | tooMany count excess => exact ⟨_, rfl, by decide⟩
  | tooDeep place => exact ⟨_, rfl, by decide⟩
  | ended wanted opened =>
    cases opened with
    | none => exact ⟨.incomplete, rfl, by decide⟩
    | some s => exact ⟨.incomplete, rfl, by decide⟩
  | unexpected found wanted opened =>
    cases opened with
    | none => exact ⟨.unexpectedToken, rfl, by decide⟩
    | some s => exact ⟨.unexpectedToken, rfl, by decide⟩
  | uncalled f place => exact ⟨_, rfl, by decide⟩
  | unknownName name place => exact ⟨_, rfl, by decide⟩
  | unknownFunction name place => exact ⟨_, rfl, by decide⟩
  | argumentCount f supplied place => exact ⟨_, rfl, by decide⟩

/-- A diagnostic marks the places of its fault, the end of the text, or all of it. -/
theorem marks_diagnostic (hu : ∀ s t, P s → P t → P (s.union t)) (hempty : P (.empty length))
    (hall : P (.ofBounds 0 length)) {fault : Fault} (h : fault.Within P) :
    (fault.diagnostic length).marks ≠ [] ∧ ∀ m ∈ (fault.diagnostic length).marks, P m.span := by
  have hone (s : Span) (message : String) (hs : P s) : [Mark.mk s message true] ≠ [] ∧
      ∀ m ∈ [Mark.mk s message true], P m.span :=
    ⟨List.cons_ne_nil _ _, List.forall_mem_singleton.2 hs⟩
  have htwo (s t : Span) (message context : String) (hs : P s) (ht : P t) :
      [Mark.mk s message true, ⟨t, context, false⟩] ≠ [] ∧
        ∀ m ∈ [Mark.mk s message true, ⟨t, context, false⟩], P m.span :=
    ⟨List.cons_ne_nil _ _, List.forall_mem_cons.2 ⟨hs, List.forall_mem_singleton.2 ht⟩⟩
  cases fault with
  | nothing => exact hone _ _ hall
  | tooMany count excess => exact hone _ _ (hu _ _ h hempty)
  | ended wanted opened =>
    cases opened with
    | none => exact hone _ _ hempty
    | some s => exact htwo _ s _ _ hempty (h s rfl)
  | unexpected found wanted opened =>
    cases opened with
    | none => exact hone _ _ h.1
    | some s => exact htwo _ s _ _ h.1 (h.2 s rfl)
  | tooDeep place => exact hone _ _ h
  | uncalled f place => exact hone _ _ h
  | unknownName name place => exact hone _ _ h
  | unknownFunction name place => exact hone _ _ h
  | argumentCount f supplied place => exact hone _ _ h

end Fault

end Sketch
