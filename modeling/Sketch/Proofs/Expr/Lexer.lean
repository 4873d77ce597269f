import Sketch.Proofs.Expr.Rejection

/-!
The loop that cuts a text into tokens. A round skips spacing and tries one reader after the other. What
none of them reads is reported, and the next round starts behind it. The rounds come to an end, and the
places of the tokens and of what is reported tile the text, but for spacing.
-/

namespace Sketch

namespace Piece

variable {run rest cs : List Char} {make : Span → Piece} {n : Nat} {ps : List Piece}

/-! ### Where numerals and names end -/

/-- Digits and points, with an exponent or without one, in front of a text that goes on with neither.
There is an exponent exactly if the text has one there, and it has all its digits. -/
structure NumeralEnds (digits power rest : List Char) : Prop where
  digits_ne_nil : digits ≠ []
  isDigit_or_point : ∀ d ∈ digits, d.isDigit = true ∨ d = '.'
  digits_end : ∀ c ∈ (power ++ rest).head?, ¬(c.isDigit = true ∨ c = '.')
  power_ne_nil_iff : power ≠ [] ↔ ∃ e, IsExponent e ∧ e <+: power ++ rest
  isExponent : power ≠ [] → IsExponent power
  power_end : power ≠ [] → ∀ c ∈ rest.head?, c.isDigit = false

theorem IsExponent.length_pos (h : IsExponent run) : 0 < run.length := by
  obtain ⟨mark, sign, digits, rfl, -⟩ := h
  exact Nat.succ_pos _

theorem exponent_ne_nil_iff : exponent cs ≠ [] ↔ ∃ e, IsExponent e ∧ e <+: cs := by
  constructor
  · intro hne
    rcases exponent_cases cs with h | ⟨_, _, _, -, -, h⟩
    · contradiction
    · exact ⟨_, h, exponent_start cs⟩
  · rintro ⟨e, he, hstart⟩
    exact List.ne_nil_of_length_pos (he.length_pos.trans_le (length_le_exponent he hstart))

/-- An exponent takes all the digits that there are. -/
theorem isDigit_eq_of_exponent (h : exponent (run ++ rest) = run) (hne : run ≠ []) :
    ∀ c ∈ rest.head?, c.isDigit = false := by
  rcases exponent_cases (run ++ rest) with hn | ⟨mark, sign, more, hcs, hrun, -⟩
  · exact absurd (h ▸ hn) hne
  · have hrest : rest = more.dropWhile Char.isDigit := by
      rw [h] at hrun
      rw [hrun, List.cons_append, List.append_assoc, List.cons_inj_right, List.append_cancel_left_eq] at hcs
      exact List.append_cancel_left (hcs.trans List.takeWhile_append_dropWhile.symm)
    exact fun c hc => Text.head?_dropWhile more (hrest ▸ hc)

theorem Longest.exists_numeralEnds (h : Longest IsNumeral run rest) :
    ∃ digits power, run = digits ++ power ∧ NumeralEnds digits power rest := by
  obtain ⟨hp, hcut⟩ := finds_numeral.longest_iff.1 h
  obtain ⟨c, ds, rfl, hc⟩ := exists_cons_of_isNumeral hp
  rw [numeral_eq] at hcut
  -- What is behind the digits is the exponent and the text that the numeral leaves.
  have hback : (c :: ds ++ rest).dropWhile isNumeralChar =
      exponent ((c :: ds ++ rest).dropWhile isNumeralChar) ++ rest := by
    have hrun := (congrArg (· ++ rest) hcut).symm.trans (List.append_assoc ..)
    exact List.append_cancel_left (List.takeWhile_append_dropWhile.trans hrun)
  refine ⟨_, _, hcut.symm, ?_, fun _ hd => isNumeralChar_iff.1 (List.mem_takeWhile_imp hd),
    fun d hd => ?_, ?_, fun hne => ?_, fun hne => ?_⟩
  · rw [List.cons_append, List.takeWhile_cons_of_pos hc]
    exact List.cons_ne_nil _ _
  · rw [← hback] at hd
    rw [← isNumeralChar_iff, Text.head?_dropWhile _ hd]
    exact Bool.false_ne_true
  · rw [← hback]
    exact exponent_ne_nil_iff
  · rcases exponent_cases ((c :: ds ++ rest).dropWhile isNumeralChar) with hn | ⟨_, _, _, -, -, he⟩
    · contradiction
    · exact he
  · exact isDigit_eq_of_exponent (congrArg exponent hback.symm) hne

theorem Longest.name_end (h : Longest IsName run rest) :
    ∀ c ∈ rest.head?, ¬(c.isAlphanum = true ∨ c = '_') := by
  obtain ⟨⟨c, ds, rfl, hc, hds⟩, hmax⟩ := h
  intro d hd hn
  obtain ⟨more, rfl⟩ := List.head?_eq_some_iff.1 hd
  have hall : ∀ e ∈ ds ++ [d], e.isAlphanum = true ∨ e = '_' :=
    List.forall_mem_append.2 ⟨hds, List.forall_mem_singleton.2 hn⟩
  exact List.cons_ne_nil d [] (hmax [d] (List.prefix_append [d] more) ⟨c, _, rfl, hc, hall⟩)

/-! ### What pieces are made of -/

/-- What characters a piece is made of, in front of the rest of a text. -/
def Spells : Piece → (run rest : List Char) → Prop
  | .lexeme ⟨.number v, _⟩, run, rest => Number.read? run = some v ∧
      ∃ digits power, run = digits ++ power ∧ NumeralEnds digits power rest
  | .lexeme ⟨.name text, _⟩, run, rest =>
      text = .ofList run ∧ IsName run ∧ ∀ c ∈ rest.head?, ¬(c.isAlphanum = true ∨ c = '_')
  | .lexeme ⟨t, _⟩, run, _ => ∃ c, run = [c] ∧ IsSymbol c t
  | .malformed _, run, rest => Number.read? run = none ∧
      ∃ digits power, run = digits ++ power ∧ NumeralEnds digits power rest
  | .stray _, run, _ => ∃ c, run = [c] ∧ IsStray c

theorem Heads.spells (h : Heads run rest make) (s : Span) : (make s).Spells run rest := by
  cases h with
  | number hr hv => exact ⟨hv, hr.exists_numeralEnds⟩
  | malformed hr hv => exact ⟨hv, hr.exists_numeralEnds⟩
  | name hr => exact ⟨rfl, hr.1, hr.name_end⟩
  | @symbol c _ t ht =>
    cases ht with
    | plus | minus | star | slash | caret | left | right | comma => exact ⟨_, rfl, by constructor⟩
  | @stray c _ hc => exact ⟨c, rfl, hc⟩

theorem IsExponent.isSpacing_eq (h : IsExponent run) : ∀ c ∈ run, Text.isSpacing c = false := by
  obtain ⟨mark, sign, digits, rfl, hm, hs, -, hall⟩ := h
  refine List.forall_mem_cons.2 ⟨?_, List.forall_mem_append.2 ⟨?_, fun d hd => ?_⟩⟩
  · rcases hm with rfl | rfl
    · decide
    · decide
  · rcases hs with rfl | rfl | rfl
    · decide
    · decide
    · decide
  · exact Text.isSpacing_eq_false (by decide) (hall d hd)

/-- No piece has spacing in it. -/
theorem Heads.isSpacing_eq (h : Heads run rest make) : ∀ c ∈ run, Text.isSpacing c = false := by
  cases h with
  | number hr _ | malformed hr _ =>
    obtain ⟨digits, power, rfl, -, hall, hpower⟩ := isNumeral_iff.1 hr.1
    have hdigits (d) (hd : d ∈ digits) := Text.isSpacing_eq_false (by decide) (hall d hd)
    rcases hpower with rfl | hpower
    · exact List.forall_mem_append.2 ⟨hdigits, List.forall_mem_nil _⟩
    · exact List.forall_mem_append.2 ⟨hdigits, hpower.isSpacing_eq⟩
  | name hr =>
    obtain ⟨c, ds, rfl, hc, hds⟩ := isName_iff.1 hr.1
    exact List.forall_mem_cons.2 ⟨Text.isSpacing_eq_false (by decide) hc, fun d hd =>
      Text.isSpacing_eq_false (by decide) (hds d hd)⟩
  | symbol ht => exact List.forall_mem_singleton.2 ht.classes.1
  | stray hc => exact List.forall_mem_singleton.2 (isStray_iff.1 hc).1

theorem Heads.exists_cons (h : Heads run rest make) :
    ∃ c ds, run = c :: ds ∧ Text.isSpacing c = false := by
  cases run with
  | nil => exact absurd h.size_pos (Nat.lt_irrefl 0)
  | cons c ds => exact ⟨c, ds, rfl, h.isSpacing_eq c (List.mem_cons_self ..)⟩

theorem scan_append {blank : List Char} (h : Text.IsSpacing blank) (n : Nat) (cs : List Char) :
    scan n (blank ++ cs) = scan (n + Text.size blank) cs := by
  induction blank generalizing n with
  | nil => rfl
  | cons c blank ih =>
    obtain ⟨hc, hblank⟩ := List.forall_mem_cons.1 h
    rw [List.cons_append, scan_spacing hc, ih hblank, Text.size_cons, (classes_of_isSpacing hc).2.2,
      Nat.add_assoc]

theorem scan_append_heads {blank : List Char} {start : Nat} (hb : Text.IsSpacing blank)
    (h : Heads run rest make) (hn : n = start + Text.size blank) : scan start (blank ++ (run ++ rest)) =
      make (.ofBounds n (n + Text.size run)) :: scan (n + Text.size run) rest := by
  rw [scan_append hb, ← hn, scan_of_heads h]

/-! ### What pieces cover -/

/-- The character behind `before` lies in the piece. -/
def Holds (p : Piece) (before : List Char) (c : Char) : Prop :=
  p.span.start ≤ Text.size before ∧ Text.size before + c.utf8Size ≤ p.span.stop

/-- What is in no piece is spacing, and no spacing is in a piece. -/
theorem Tiles.isSpacing_iff (h : Tiles n cs ps) (front : List Char) (hn : n = Text.size front)
    {before after : List Char} {c : Char} (hcs : cs = before ++ c :: after) :
    Text.isSpacing c = true ↔ ¬∃ p ∈ ps, p.Holds (front ++ before) c := by
  induction h generalizing front before with
  | nil => cases before <;> contradiction
  | @spacing n d cs ps hd h ih =>
    have hsize : n + 1 = Text.size (front ++ [d]) := by
      simp [hn, (classes_of_isSpacing hd).2.2]
    cases before with
    | nil =>
      obtain ⟨rfl, rfl⟩ := List.cons.inj hcs
      refine iff_of_true hd ?_
      rintro ⟨p, hp, hstart, -⟩
      have := h.ordered.1 p hp
      rw [List.append_nil] at hstart
      omega
    | cons b before =>
      obtain ⟨rfl, htail⟩ := List.cons.inj hcs
      rw [ih (front ++ [d]) hsize htail, List.append_assoc, List.singleton_append]
  | @piece n run rest make ps hh h ih =>
    obtain ⟨hstart, hstop⟩ := Span.ofBounds_add n (Text.size run)
    -- A character in the run is in this piece, and one behind it is in one of the others.
    have hrest (more : List Char) (hb : before = run ++ more) (hr : rest = more ++ c :: after) :
        Text.isSpacing c = true ↔ ¬∃ p ∈ make (.ofBounds n (n + Text.size run)) :: ps,
          p.Holds (front ++ before) c := by
      have hfirst : ¬(make (.ofBounds n (n + Text.size run))).Holds (front ++ before) c := by
        rintro ⟨-, hc⟩
        have := c.utf8Size_pos
        rw [hh.span_make, hstop, hb, Text.size_append, Text.size_append] at hc
        omega
      rw [ih (front ++ run) (by simp [hn]) hr, List.exists_mem_cons_iff, or_iff_right hfirst, hb,
        List.append_assoc]
    rcases List.append_eq_append_iff.1 hcs with ⟨more, hb, hr⟩ | ⟨more, hb, hr⟩
    · exact hrest more hb hr
    · cases more with
      | nil => exact hrest [] (by rw [hb, List.append_nil, List.append_nil]) hr.symm
      | cons d more =>
        obtain ⟨rfl, -⟩ := List.cons.inj hr
        have hc : Text.isSpacing c = false := hh.isSpacing_eq c (by simp [hb])
        refine iff_of_false (by simp [hc]) (not_not_intro ⟨_, List.mem_cons_self .., ?_⟩)
        rw [Holds, hh.span_make, hstart, hstop, hn, hb]
        simp only [Text.size_append, Text.size_cons]
        omega

end Piece

/-! ### The loop -/

/-- What is read so far, and the text that is left. -/
structure Lexer where
  tokens : List Lexeme := []
  diagnostics : List Diagnostic := []
  offset : Nat := 0
  rest : List Char

namespace Lexer

/-- What a reader makes of a text. One that fails has taken nothing, but for a malformed numeral, on
which no other reader is tried. -/
inductive Attempt
  | token (t : Token) (rest : List Char)
  | malformed (rest : List Char)
  | failed

/-- The attempt that makes a piece, in front of the rest of a text. -/
def Attempt.ofPiece (rest : List Char) : Piece → Attempt
  | .lexeme l => .token l.token rest
  | .malformed _ => .malformed rest
  | .stray _ => .failed

def Attempt.orElse : Attempt → Attempt → Attempt
  | .failed, other => other
  | a, _ => a

def numeral (cs : List Char) : Attempt :=
  if cs.takeWhile Piece.isNumeralChar = [] then .failed
  else
    let run := Piece.numeral cs
    match Number.read? run with
    | some v => .token (.number v) (cs.drop run.length)
    | none => .malformed (cs.drop run.length)

def name (cs : List Char) : Attempt :=
  let run := cs.takeWhile Piece.isNameChar
  if run.head?.any Piece.isNameStart then .token (.name (.ofList run)) (cs.drop run.length)
  else .failed

def symbol : List Char → Attempt
  | [] => .failed
  | c :: cs =>
    match Token.ofSymbol? c with
    | some t => .token t cs
    | none => .failed

def attempt (cs : List Char) : Attempt := (numeral cs).orElse ((name cs).orElse (symbol cs))

/-- Adds a piece to the tokens or to what is reported, and goes on behind it. -/
def push (s : Lexer) (p : Piece) (offset : Nat) (rest : List Char) : Lexer :=
  ⟨s.tokens ++ p.lexeme?.toList, s.diagnostics ++ p.diagnostic?.toList, offset, rest⟩

/-- Where to go on after a failure: a character further, if nothing was taken since `start`. -/
def recover (start place : Nat) (rest : List Char) : Nat × List Char :=
  match rest with
  | [] => (place, [])
  | c :: cs => if place = start then (place + c.utf8Size, cs) else (place, c :: cs)

/-- The bytes of the next character. -/
def width : List Char → Nat
  | [] => 1
  | c :: _ => c.utf8Size

/-- One round, unless only spacing is left. -/
def round? (s : Lexer) : Option Lexer :=
  let start := s.offset + Text.size (s.rest.takeWhile Text.isSpacing)
  let cs := s.rest.dropWhile Text.isSpacing
  let place (rest : List Char) := start + (Text.size cs - Text.size rest)
  if cs = [] then none
  else match attempt cs with
    | .token t rest => some (s.push (.lexeme ⟨t, .ofBounds start (place rest)⟩) (place rest) rest)
    | .malformed rest =>
      let (offset, rest') := recover start (place rest) rest
      some (s.push (.malformed (.ofBounds start (place rest))) offset rest')
    | .failed =>
      let (offset, rest') := recover start (place cs) cs
      some (s.push (.stray (.ofBounds (place cs) (place cs + width cs))) offset rest')

/-- The tokens and the diagnostics at the end of the loop, if it ends within so many rounds. -/
def run? : Nat → Lexer → Option (List Lexeme × List Diagnostic)
  | 0, _ => none
  | rounds + 1, s =>
    match s.round? with
    | none => some (s.tokens, s.diagnostics)
    | some next => run? rounds next

section Readers

variable {c : Char} {run rest blank : List Char} {make : Span → Piece} {s : Lexer} {n : Nat}

theorem numeral_of_longest (h : Piece.Longest Piece.IsNumeral run rest) : numeral (run ++ rest) =
    match Number.read? run with
    | some v => .token (.number v) rest
    | none => .malformed rest := by
  obtain ⟨hp, hcut⟩ := Piece.finds_numeral.longest_iff.1 h
  obtain ⟨c, ds, rfl, hc⟩ := Piece.exists_cons_of_isNumeral hp
  have hne : (c :: ds ++ rest).takeWhile Piece.isNumeralChar ≠ [] := by
    rw [List.cons_append, List.takeWhile_cons_of_pos hc]
    exact List.cons_ne_nil _ _
  rw [numeral, if_neg hne, hcut]
  dsimp only
  rw [List.drop_left]

theorem name_of_longest (h : Piece.Longest Piece.IsName run rest) :
    name (run ++ rest) = .token (.name (.ofList run)) rest := by
  obtain ⟨hname, hcut⟩ := Piece.finds_name.longest_iff.1 h
  obtain ⟨c, ds, rfl, hc, -⟩ := Piece.isName_iff.1 hname
  rw [name, hcut, List.drop_left, List.head?_cons, Option.any_some, if_pos hc]

theorem numeral_cons_failed (h : Piece.isNumeralChar c = false) (cs : List Char) :
    numeral (c :: cs) = .failed := by
  rw [numeral, List.takeWhile_cons_of_neg (by simp [h]), if_pos rfl]

theorem name_cons_failed (h : Piece.isNameStart c = false) (cs : List Char) :
    name (c :: cs) = .failed := by
  rw [name, List.takeWhile_cons]
  split
  · rw [List.head?_cons, Option.any_some, if_neg (by simp [h])]
  · rfl

/-- The first reader that does not fail reads what the text starts with. -/
theorem attempt_of_heads (h : Piece.Heads run rest make) (place : Span) :
    attempt (run ++ rest) = .ofPiece rest (make place) := by
  rw [attempt]
  cases h with
  | number hr hv =>
    rw [numeral_of_longest hr, hv]
    rfl
  | malformed hr hv =>
    rw [numeral_of_longest hr, hv]
    rfl
  | name hr =>
    have hname := name_of_longest hr
    obtain ⟨c, ds, rfl, hc, -⟩ := Piece.isName_iff.1 hr.1
    rw [hname, List.cons_append, numeral_cons_failed (Piece.not_isNumeralChar_of_isNameStart hc)]
    rfl
  | symbol ht =>
    obtain ⟨-, hn, hm⟩ := ht.classes
    rw [List.singleton_append, numeral_cons_failed hn, name_cons_failed hm, symbol,
      Piece.ofSymbol?_eq_some_iff.2 ht]
    rfl
  | stray hc =>
    obtain ⟨-, hn, hm, ht⟩ := Piece.isStray_iff.1 hc
    rw [List.singleton_append, numeral_cons_failed hn, name_cons_failed hm, symbol, ht]
    rfl

theorem recover_of_lt {start place : Nat} (h : start < place) (rest : List Char) :
    recover start place rest = (place, rest) := by
  cases rest with
  | nil => rfl
  | cons c cs => exact if_neg (Nat.ne_of_gt h)

theorem recover_self (start : Nat) (c : Char) (cs : List Char) :
    recover start start (c :: cs) = (start + c.utf8Size, cs) :=
  if_pos rfl

theorem round?_of_heads (hs : s.rest = blank ++ (run ++ rest)) (hb : Text.IsSpacing blank)
    (h : Piece.Heads run rest make) (hn : n = s.offset + Text.size blank) :
    s.round? = some (s.push (make (.ofBounds n (n + Text.size run))) (n + Text.size run) rest) := by
  have hlt : n < n + Text.size run := Nat.lt_add_of_pos_right h.size_pos
  have hplace : Text.size (run ++ rest) - Text.size rest = Text.size run := by
    rw [Text.size_append, Nat.add_sub_cancel]
  obtain ⟨c, ds, hrun, hc⟩ := h.exists_cons
  have hhead : ∀ d ∈ (run ++ rest).head?, Text.isSpacing d = false := by
    rw [hrun]
    rintro d ⟨⟩
    exact hc
  obtain ⟨ht, hd⟩ := Text.takeWhile_dropWhile_append hb hhead
  rw [round?, hs, ht, hd, ← hn, attempt_of_heads h (.ofBounds n (n + Text.size run))]
  dsimp only
  rw [if_neg (hrun ▸ List.cons_ne_nil _ _), Nat.sub_self, Nat.add_zero]
  cases h with
  | number | name | symbol =>
    dsimp only [Attempt.ofPiece]
    rw [hplace]
  | malformed =>
    dsimp only [Attempt.ofPiece]
    rw [hplace, recover_of_lt hlt]
  | stray =>
    dsimp only [Attempt.ofPiece]
    rw [List.singleton_append, recover_self, width]
    rfl

theorem filterMap_cons_eq_append {β : Type} (f : Piece → Option β) (p : Piece) (ps : List Piece) :
    (p :: ps).filterMap f = (f p).toList ++ ps.filterMap f := by
  rw [List.filterMap_eq_flatMap_toList, List.flatMap_cons, ← List.filterMap_eq_flatMap_toList]

/-- Each round reads the next piece, so there are no more rounds than characters. -/
theorem run?_eq {rounds : Nat} (h : s.rest.length < rounds) : run? rounds s =
    some (s.tokens ++ (Piece.scan s.offset s.rest).filterMap Piece.lexeme?,
      s.diagnostics ++ (Piece.scan s.offset s.rest).filterMap Piece.diagnostic?) := by
  induction rounds generalizing s with
  | zero => exact absurd h (Nat.not_lt_zero _)
  | succ rounds ih =>
    obtain ⟨blank, hb, hs⟩ : ∃ blank, Text.IsSpacing blank ∧
        s.rest = blank ++ s.rest.dropWhile Text.isSpacing :=
      ⟨_, fun _ hc => List.mem_takeWhile_imp hc, List.takeWhile_append_dropWhile.symm⟩
    rw [run?]
    cases hd : s.rest.dropWhile Text.isSpacing with
    | nil =>
      have hround : s.round? = none := by
        rw [round?, hd]
        exact if_pos rfl
      have hscan : Piece.scan s.offset s.rest = [] := by
        rw [hs, hd, Piece.scan_append hb, Piece.scan]
      rw [hround, hscan, List.filterMap_nil, List.filterMap_nil, List.append_nil, List.append_nil]
    | cons c cs =>
      have hc : Text.isSpacing c = false := Text.head?_dropWhile s.rest (hd ▸ rfl)
      obtain ⟨run, rest, make, hcs, hne, hh⟩ := Piece.exists_heads hc cs
      rw [hd, hcs] at hs
      have hlt : rest.length < rounds := by
        have := List.length_pos_iff.2 hne
        rw [hs, List.length_append, List.length_append] at h
        omega
      rw [round?_of_heads hs hb hh rfl, hs, Piece.scan_append_heads hb hh rfl]
      dsimp only
      rw [ih hlt, push, filterMap_cons_eq_append, filterMap_cons_eq_append, List.append_assoc,
        List.append_assoc]

end Readers

/-- The loop ends, and what it reads and reports are pieces of the text, each in its place. They stand
one behind the other, each is as long as it can be, and between them there is nothing but spacing. -/
theorem tiles_text (source : String) : ∃ pieces : List Piece,
    run? (source.toList.length + 1) { rest := source.toList } =
      some (pieces.filterMap Piece.lexeme?, pieces.filterMap Piece.diagnostic?) ∧
    Lexeme.ofText source.toList = (match pieces.filterMap Piece.diagnostic? with
      | [] => .ok (pieces.filterMap Piece.lexeme?)
      | ds => .error ⟨ds⟩) ∧
    List.Forall₂ (Piece.Reports source) (pieces.filter Piece.isBad)
      (pieces.filterMap Piece.diagnostic?) ∧
    (∀ p ∈ pieces, p.span.start < p.span.stop ∧ ∃ before run rest,
      source.toList = before ++ (run ++ rest) ∧ p.span.start = Text.size before ∧
        p.span.stop = Text.size before + Text.size run ∧ p.span.Cuts source (.ofList run) ∧
        p.Spells run rest) ∧
    (pieces.Pairwise fun p q => p.span.start < q.span.start ∧ p.span.stop ≤ q.span.start) ∧
    ∀ before c after, source.toList = before ++ c :: after →
      (c ∈ [' ', '\t', '\r', '\n'] ↔ ¬∃ p ∈ pieces, p.Holds before c) := by
  have htiles := Piece.tiles_scan 0 source.toList
  refine ⟨Piece.scan 0 source.toList, run?_eq (Nat.lt_succ_self _), rfl,
    Piece.forall₂_reports (htiles.standsIn [] rfl), fun p hp => ?_, htiles.ordered.2,
    fun before c after h => Text.isSpacing_iff.symm.trans (htiles.isSpacing_iff [] rfl h)⟩
  obtain ⟨before, run, rest, make, hsource, hh, rfl⟩ := htiles.exists_split [] rfl p hp
  obtain ⟨hstart, hstop⟩ := Span.ofBounds_add (Text.size before) (Text.size run)
  rw [hh.span_make, hstart, hstop]
  exact ⟨Nat.lt_add_of_pos_right hh.size_pos, before, run, rest, hsource, rfl, rfl,
    (Span.Covers.ofBounds hsource).cuts, hh.spells _⟩

/-- Of a number, a name, a space and a stray character, the space alone is in no piece. -/
theorem tiles_text_stray : ∃ pieces : List Piece,
    run? ("2e $".toList.length + 1) { rest := "2e $".toList } =
      some (pieces.filterMap Piece.lexeme?, pieces.filterMap Piece.diagnostic?) ∧
    (¬∃ p ∈ pieces, p.Holds ['2', 'e'] ' ') ∧ ∃ p ∈ pieces, p.Holds ['2', 'e', ' '] '$' := by
  obtain ⟨pieces, hrun, -, -, -, -, hcover⟩ := tiles_text "2e $"
  refine ⟨pieces, hrun, (hcover ['2', 'e'] ' ' ['$'] rfl).1 (by decide), ?_⟩
  by_contra h
  exact absurd ((hcover ['2', 'e', ' '] '$' [] rfl).2 h) (by decide)

end Lexer

end Sketch
