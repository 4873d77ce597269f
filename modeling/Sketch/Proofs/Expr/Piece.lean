import Sketch.Expr.Token
import Sketch.Proofs.Number.Notation
import Sketch.Proofs.Span
import Sketch.Proofs.Text.Lines

/-!
The pieces of an expression's text. Numerals and names are as long as they can be, any other piece is
a single character, and between the pieces there is only spacing. There is one way to cut a text so.
-/

namespace Sketch.Piece

/-- A mark, a sign or none, and digits. -/
def IsExponent (run : List Char) : Prop :=
  ∃ mark sign digits, run = mark :: (sign ++ digits) ∧ (mark = 'e' ∨ mark = 'E') ∧
    (sign = [] ∨ sign = ['+'] ∨ sign = ['-']) ∧ digits ≠ [] ∧ ∀ d ∈ digits, d.isDigit = true

/-- Digits and points in any order, with an exponent or without one. -/
def IsNumeral (run : List Char) : Prop :=
  ∃ digits power, run = digits ++ power ∧ digits ≠ [] ∧
    (∀ d ∈ digits, d.isDigit = true ∨ d = '.') ∧ (power = [] ∨ IsExponent power)

/-- A letter or an underscore, and then letters, digits and underscores. -/
def IsName (run : List Char) : Prop :=
  ∃ c cs, run = c :: cs ∧ (c.isAlpha = true ∨ c = '_') ∧ ∀ d ∈ cs, d.isAlphanum = true ∨ d = '_'

/-- The symbols, each with the token that it is. -/
inductive IsSymbol : Char → Token → Prop
  | plus : IsSymbol '+' .plus
  | minus : IsSymbol '-' .minus
  | star : IsSymbol '*' .star
  | slash : IsSymbol '/' .slash
  | caret : IsSymbol '^' .caret
  | left : IsSymbol '(' .left
  | right : IsSymbol ')' .right
  | comma : IsSymbol ',' .comma

/-- A character that neither separates pieces nor starts a token. -/
structure IsStray (c : Char) : Prop where
  isAlphanum_eq : c.isAlphanum = false
  not_mem_marks : c ∉ ['.', '_', '+', '-', '*', '/', '^', '(', ')', ',']
  not_mem_spacing : c ∉ [' ', '\t', '\r', '\n']

/-- A run of a kind that the text behind it does not continue. -/
def Longest (P : List Char → Prop) (run rest : List Char) : Prop :=
  P run ∧ ∀ more, more <+: rest → P (run ++ more) → more = []

/-- The piece that a text starts with, but for its place: the run of characters that it is made of,
and what follows. -/
inductive Heads : (run rest : List Char) → (Span → Piece) → Prop
  | number {run rest v} : Longest IsNumeral run rest → Number.read? run = some v →
      Heads run rest fun s => .lexeme ⟨.number v, s⟩
  | malformed {run rest} : Longest IsNumeral run rest → Number.read? run = none →
      Heads run rest .malformed
  | name {run rest} : Longest IsName run rest → Heads run rest fun s => .lexeme ⟨.name (.ofList run), s⟩
  | symbol {c rest t} : IsSymbol c t → Heads [c] rest fun s => .lexeme ⟨t, s⟩
  | stray {c rest} : IsStray c → Heads [c] rest .stray

/-- The pieces of a text that starts at an offset, each with its place. -/
inductive Tiles : (offset : Nat) → List Char → List Piece → Prop
  | nil {n} : Tiles n [] []
  | spacing {n c cs ps} : Text.isSpacing c = true → Tiles (n + 1) cs ps → Tiles n (c :: cs) ps
  | piece {n run rest make ps} : Heads run rest make → Tiles (n + Text.size run) rest ps →
      Tiles n (run ++ rest) (make (.ofBounds n (n + Text.size run)) :: ps)

/-! ### Longest runs -/

/-- A function that cuts the longest run of a kind off the start of a text. -/
structure Finds (P : List Char → Prop) (cut : List Char → List Char) : Prop where
  cut_start : ∀ cs, cut cs <+: cs
  of_start : ∀ {run cs}, P run → run <+: cs → P (cut cs) ∧ run.length ≤ (cut cs).length

namespace Finds

variable {P : List Char → Prop} {cut : List Char → List Char} {run rest cs : List Char}

theorem longest_iff (h : Finds P cut) : Longest P run rest ↔ P run ∧ cut (run ++ rest) = run := by
  constructor
  · rintro ⟨hp, hmax⟩
    obtain ⟨hcut, hl⟩ := h.of_start hp (List.prefix_append run rest)
    obtain ⟨more, hm⟩ := List.prefix_of_prefix_length_le (List.prefix_append run rest) (h.cut_start _) hl
    have hstart : run ++ more <+: run ++ rest := hm ▸ h.cut_start _
    rw [← hm] at hcut
    refine ⟨hp, ?_⟩
    rw [← hm, hmax more ((List.prefix_append_right_inj run).1 hstart) hcut, List.append_nil]
  · rintro ⟨hp, hcut⟩
    refine ⟨hp, fun more hm hmore => ?_⟩
    obtain ⟨-, hl⟩ := h.of_start hmore ((List.prefix_append_right_inj run).2 hm)
    rw [hcut, List.length_append] at hl
    exact List.length_eq_zero_iff.1 (by omega)

theorem exists_longest (h : Finds P cut) (hp : P run) (hr : run <+: cs) :
    ∃ rest, cs = cut cs ++ rest ∧ Longest P (cut cs) rest := by
  obtain ⟨rest, hrest⟩ := h.cut_start cs
  refine ⟨rest, hrest.symm, h.longest_iff.2 ⟨(h.of_start hp hr).1, ?_⟩⟩
  rw [hrest]

end Finds

variable {c : Char} {cs run rest : List Char} {n : Nat}

/-! ### Classes of characters -/

theorem isNumeralChar_iff : isNumeralChar c = true ↔ c.isDigit = true ∨ c = '.' := by
  rw [isNumeralChar, Bool.or_eq_true, beq_iff_eq]

theorem isNameStart_iff : isNameStart c = true ↔ c.isAlpha = true ∨ c = '_' := by
  rw [isNameStart, Bool.or_eq_true, beq_iff_eq]

theorem isNameChar_iff : isNameChar c = true ↔ c.isAlphanum = true ∨ c = '_' := by
  rw [isNameChar, Bool.or_eq_true, beq_iff_eq]

theorem isName_iff : IsName run ↔
    ∃ c cs, run = c :: cs ∧ isNameStart c = true ∧ ∀ d ∈ cs, isNameChar d = true := by
  simp only [isNameStart_iff, isNameChar_iff, IsName]

theorem isNumeral_iff : IsNumeral run ↔ ∃ digits power, run = digits ++ power ∧ digits ≠ [] ∧
    (∀ d ∈ digits, isNumeralChar d = true) ∧ (power = [] ∨ IsExponent power) := by
  simp only [isNumeralChar_iff, IsNumeral]

theorem ofSymbol?_eq_some_iff {t : Token} : Token.ofSymbol? c = some t ↔ IsSymbol c t := by
  constructor
  · intro h
    unfold Token.ofSymbol? at h
    split at h
    all_goals cases h
    all_goals constructor
  · intro h
    cases h with
    | plus | minus | star | slash | caret | left | right | comma => rfl

theorem ofSymbol?_eq_none_iff :
    Token.ofSymbol? c = none ↔ c ∉ ['+', '-', '*', '/', '^', '(', ')', ','] := by
  unfold Token.ofSymbol?
  split <;> simp_all

/-- A character is stray if no reader takes it. -/
theorem isStray_iff : IsStray c ↔ Text.isSpacing c = false ∧ isNumeralChar c = false ∧
    isNameStart c = false ∧ Token.ofSymbol? c = none := by
  rw [ofSymbol?_eq_none_iff]
  simp only [← Bool.not_eq_true, isNumeralChar_iff, isNameStart_iff, Text.isSpacing_iff]
  constructor
  · rintro ⟨hc, hm, hs⟩
    rw [← Bool.not_eq_true, Char.isAlphanum, Bool.or_eq_true] at hc
    refine ⟨hs, ?_⟩
    simp only [List.mem_cons, List.not_mem_nil, or_false] at hm ⊢
    tauto
  · rintro ⟨hs, hn, hm, ht⟩
    refine ⟨?_, ?_, hs⟩
    · rw [← Bool.not_eq_true, Char.isAlphanum, Bool.or_eq_true]
      tauto
    · simp only [List.mem_cons, List.not_mem_nil, or_false] at ht ⊢
      tauto

theorem isNameChar_of_isNameStart (h : isNameStart c = true) : isNameChar c = true := by
  unfold isNameStart at h
  rw [isNameChar, Char.isAlphanum]
  grind

theorem finds_name : Finds IsName (List.takeWhile isNameChar) where
  cut_start _ := List.takeWhile_prefix _
  of_start := by
    intro run cs hrun hr
    obtain ⟨c, ds, rfl, hc, hds⟩ := isName_iff.1 hrun
    obtain ⟨rest, rfl⟩ := hr
    have hall : ∀ d ∈ c :: ds, isNameChar d = true :=
      List.forall_mem_cons.2 ⟨isNameChar_of_isNameStart hc, hds⟩
    rw [List.takeWhile_append_of_pos hall]
    refine ⟨isName_iff.2 ⟨c, ds ++ rest.takeWhile isNameChar, rfl, hc, fun d hd => ?_⟩, ?_⟩
    · rcases List.mem_append.1 hd with hd | hd
      · exact hds d hd
      · exact List.mem_takeWhile_imp hd
    · rw [List.length_append]
      exact Nat.le_add_right ..

/-- An exponent that is found has its digits right behind the sign. -/
theorem exponent_cases (cs : List Char) : exponent cs = [] ∨ ∃ mark sign rest,
    cs = mark :: (sign ++ rest) ∧ exponent cs = mark :: (sign ++ rest.takeWhile Char.isDigit) ∧
      IsExponent (exponent cs) := by
  cases cs with
  | nil => exact .inl rfl
  | cons mark cs =>
    have hsign : ∃ sign rest, cs = sign ++ rest ∧ (sign = [] ∨ sign = ['+'] ∨ sign = ['-']) ∧
        (cs.take 1).filter (fun s => s == '+' || s == '-') = sign := by
      cases cs with
      | nil => exact ⟨[], [], rfl, .inl rfl, rfl⟩
      | cons c cs =>
        by_cases hp : c = '+'
        · subst hp
          exact ⟨['+'], cs, rfl, .inr (.inl rfl), rfl⟩
        · by_cases hm : c = '-'
          · subst hm
            exact ⟨['-'], cs, rfl, .inr (.inr rfl), rfl⟩
          · exact ⟨[], c :: cs, rfl, .inl rfl, by simp [hp, hm]⟩
    obtain ⟨sign, rest, rfl, hs, hf⟩ := hsign
    rw [exponent, hf, List.drop_left]
    split
    · next h =>
      refine .inr ⟨mark, sign, rest, rfl, rfl, mark, sign, _, rfl, h.1, hs, h.2, fun d hd => ?_⟩
      exact List.mem_takeWhile_imp hd
    · exact .inl rfl

theorem exponent_start (cs : List Char) : exponent cs <+: cs := by
  rcases exponent_cases cs with h | ⟨mark, sign, rest, rfl, h, -⟩
  · rw [h]
    exact List.nil_prefix
  · rw [h, List.cons_prefix_cons, List.prefix_append_right_inj]
    exact ⟨rfl, List.takeWhile_prefix _⟩

/-- A sign before digits is told apart from them, and so is no sign. -/
theorem filter_sign {sign digits : List Char} (hs : sign = [] ∨ sign = ['+'] ∨ sign = ['-'])
    (hd : digits ≠ []) (hall : ∀ d ∈ digits, d.isDigit = true) (rest : List Char) :
    ((sign ++ (digits ++ rest)).take 1).filter (fun s => s == '+' || s == '-') = sign := by
  rcases hs with rfl | rfl | rfl
  · obtain ⟨d, ds, rfl⟩ := List.exists_cons_of_ne_nil hd
    have hne : d ≠ '+' ∧ d ≠ '-' := by
      have := hall d (List.mem_cons_self ..)
      constructor
      · rintro rfl
        contradiction
      · rintro rfl
        contradiction
    simp [hne.1, hne.2]
  · rfl
  · rfl

theorem length_le_exponent (h : IsExponent run) (hr : run <+: cs) :
    run.length ≤ (exponent cs).length := by
  obtain ⟨mark, sign, digits, rfl, hm, hs, hd, hall⟩ := h
  obtain ⟨rest, rfl⟩ := hr
  have hdigits : (digits ++ rest).takeWhile Char.isDigit = digits ++ rest.takeWhile Char.isDigit :=
    List.takeWhile_append_of_pos hall
  have heq : exponent (mark :: (sign ++ digits) ++ rest) =
      mark :: (sign ++ (digits ++ rest.takeWhile Char.isDigit)) := by
    rw [List.cons_append, List.append_assoc, exponent, filter_sign hs hd hall rest, List.drop_left, hdigits,
      if_pos ⟨hm, List.append_ne_nil_of_left_ne_nil hd _⟩, List.cons_append]
  rw [heq]
  simp only [List.length_cons, List.length_append]
  omega

theorem numeral_eq (cs : List Char) :
    numeral cs = cs.takeWhile isNumeralChar ++ exponent (cs.dropWhile isNumeralChar) := by
  have hdrop : (cs.takeWhile isNumeralChar ++ cs.dropWhile isNumeralChar).drop
      (cs.takeWhile isNumeralChar).length = cs.dropWhile isNumeralChar := List.drop_left
  rw [List.takeWhile_append_dropWhile] at hdrop
  rw [numeral, hdrop]

theorem numeral_start (cs : List Char) : numeral cs <+: cs := by
  obtain ⟨rest, hrest⟩ := exponent_start (cs.dropWhile isNumeralChar)
  refine ⟨rest, ?_⟩
  rw [numeral_eq, List.append_assoc, hrest, List.takeWhile_append_dropWhile]

theorem finds_numeral : Finds IsNumeral numeral where
  cut_start := numeral_start
  of_start := by
    intro run cs hrun hr
    obtain ⟨digits, power, rfl, hd, hall, hpower⟩ := isNumeral_iff.1 hrun
    obtain ⟨rest, rfl⟩ := hr
    rw [List.append_assoc, numeral_eq, List.takeWhile_append_of_pos hall,
      List.dropWhile_append_of_pos hall]
    constructor
    · refine isNumeral_iff.2 ⟨_, _, rfl, List.append_ne_nil_of_left_ne_nil hd _, fun d hm => ?_, ?_⟩
      · rcases List.mem_append.1 hm with hm | hm
        · exact hall d hm
        · exact List.mem_takeWhile_imp hm
      · rcases exponent_cases ((power ++ rest).dropWhile isNumeralChar) with h | ⟨_, _, _, -, -, h⟩
        · exact .inl h
        · exact .inr h
    · simp only [List.length_append]
      rcases hpower with rfl | hpower
      · rw [List.length_nil]
        omega
      · -- The mark of an exponent ends the digits, and there the other exponent starts as well.
        have hmark : (power ++ rest).takeWhile isNumeralChar = [] ∧
            (power ++ rest).dropWhile isNumeralChar = power ++ rest := by
          obtain ⟨mark, sign, ds, rfl, hm, -⟩ := hpower
          rcases hm with rfl | rfl
          · exact ⟨rfl, rfl⟩
          · exact ⟨rfl, rfl⟩
        rw [hmark.1, hmark.2, List.length_nil]
        have := length_le_exponent hpower (List.prefix_append power rest)
        omega

/-! ### Scanning -/

theorem scan_spacing (h : Text.isSpacing c = true) (n : Nat) (cs : List Char) :
    scan n (c :: cs) = scan (n + 1) cs := by
  rw [scan, if_pos h]

/-- The characters that separate pieces start none, and are of one byte. -/
theorem classes_of_isSpacing (h : Text.isSpacing c = true) :
    isNumeralChar c = false ∧ isNameStart c = false ∧ c.utf8Size = 1 :=
  (by decide : ∀ c ∈ [' ', '\t', '\r', '\n'], isNumeralChar c = false ∧ isNameStart c = false ∧
    c.utf8Size = 1) c (Text.isSpacing_iff.1 h)

theorem not_isNumeralChar_of_isNameStart (h : isNameStart c = true) : isNumeralChar c = false := by
  rw [isNameStart, Bool.or_eq_true, beq_iff_eq] at h
  rcases h with h | rfl
  · by_contra hn
    rw [Bool.not_eq_false, isNumeralChar, Bool.or_eq_true, beq_iff_eq] at hn
    rcases hn with hn | rfl
    · have hd : ∀ c ∈ "0123456789".toList, c.isAlpha = false := by decide
      rw [hd c (Number.mem_of_isDigit hn)] at h
      contradiction
    · contradiction
  · decide

theorem IsSymbol.classes {t : Token} (h : IsSymbol c t) :
    Text.isSpacing c = false ∧ isNumeralChar c = false ∧ isNameStart c = false := by
  cases h with
  | plus | minus | star | slash | caret | left | right | comma => decide

section Scanning

variable {ds : List Char} {make : Span → Piece} {ps : List Piece}

theorem drop_length_cons (ds rest : List Char) : (ds ++ rest).drop ((c :: ds).length - 1) = rest := by
  rw [List.length_cons, Nat.add_sub_cancel, List.drop_left]

theorem scan_numeral (hc : isNumeralChar c = true) (hr : numeral (c :: ds ++ rest) = c :: ds) (n : Nat) :
    scan n (c :: ds ++ rest) =
      ofNumeral n (c :: ds) :: scan (n + Text.size (c :: ds)) rest := by
  have hs : ¬Text.isSpacing c = true := fun hs => by
    rw [(classes_of_isSpacing hs).1] at hc
    contradiction
  rw [List.cons_append] at hr ⊢
  rw [scan, if_neg hs, if_pos hc, hr]
  dsimp only
  rw [drop_length_cons]

theorem scan_name (hc : isNameStart c = true)
    (hr : (c :: ds ++ rest).takeWhile isNameChar = c :: ds) (n : Nat) :
    scan n (c :: ds ++ rest) = ofName n (c :: ds) :: scan (n + Text.size (c :: ds)) rest := by
  have hs : ¬Text.isSpacing c = true := fun hs => by
    rw [(classes_of_isSpacing hs).2.1] at hc
    contradiction
  have hn : ¬isNumeralChar c = true := by
    rw [not_isNumeralChar_of_isNameStart hc]
    exact Bool.false_ne_true
  rw [List.cons_append] at hr ⊢
  rw [scan, if_neg hs, if_neg hn, if_pos hc, hr]
  dsimp only
  rw [drop_length_cons]

theorem scan_char (hs : Text.isSpacing c = false) (hn : isNumeralChar c = false)
    (hc : isNameStart c = false) (n : Nat) (rest : List Char) :
    scan n (c :: rest) = ofChar n c :: scan (n + c.utf8Size) rest := by
  rw [scan, if_neg (by simp [hs]), if_neg (by simp [hn]), if_neg (by simp [hc])]

theorem exists_cons_of_isNumeral (h : IsNumeral run) : ∃ c ds, run = c :: ds ∧ isNumeralChar c = true := by
  obtain ⟨digits, power, rfl, hd, hall, -⟩ := isNumeral_iff.1 h
  obtain ⟨c, ds, rfl⟩ := List.exists_cons_of_ne_nil hd
  exact ⟨c, ds ++ power, rfl, hall c (List.mem_cons_self ..)⟩

/-- What the first piece of a text is, is what is scanned first. -/
theorem scan_of_heads (h : Heads run rest make) (n : Nat) : scan n (run ++ rest) =
    make (.ofBounds n (n + Text.size run)) :: scan (n + Text.size run) rest := by
  cases h with
  | number hr hv =>
    obtain ⟨hp, hcut⟩ := finds_numeral.longest_iff.1 hr
    obtain ⟨c, ds, rfl, hc⟩ := exists_cons_of_isNumeral hp
    rw [scan_numeral hc hcut, ofNumeral, hv]
  | malformed hr hv =>
    obtain ⟨hp, hcut⟩ := finds_numeral.longest_iff.1 hr
    obtain ⟨c, ds, rfl, hc⟩ := exists_cons_of_isNumeral hp
    rw [scan_numeral hc hcut, ofNumeral, hv]
  | name hr =>
    obtain ⟨hname, hcut⟩ := finds_name.longest_iff.1 hr
    obtain ⟨c, ds, rfl, hc, -⟩ := isName_iff.1 hname
    rw [scan_name hc hcut, ofName]
  | symbol ht =>
    obtain ⟨hs, hn, hm⟩ := ht.classes
    rw [List.singleton_append, scan_char hs hn hm, ofChar, ofSymbol?_eq_some_iff.2 ht]
    rfl
  | stray hc =>
    obtain ⟨hs, hn, hm, ht⟩ := isStray_iff.1 hc
    rw [List.singleton_append, scan_char hs hn hm, ofChar, ht]
    rfl

theorem exists_heads (h : Text.isSpacing c = false) (cs : List Char) :
    ∃ run rest make, c :: cs = run ++ rest ∧ run ≠ [] ∧ Heads run rest make := by
  have hstart : [c] <+: c :: cs := List.prefix_append [c] cs
  by_cases hn : isNumeralChar c = true
  · have hp : IsNumeral [c] := isNumeral_iff.2
      ⟨[c], [], rfl, List.cons_ne_nil _ _, List.forall_mem_singleton.2 hn, .inl rfl⟩
    obtain ⟨rest, hrest, hl⟩ := finds_numeral.exists_longest hp hstart
    obtain ⟨d, ds, hd, -⟩ := exists_cons_of_isNumeral hl.1
    have hne : numeral (c :: cs) ≠ [] := hd ▸ List.cons_ne_nil _ _
    cases hv : Number.read? (numeral (c :: cs)) with
    | some v => exact ⟨_, rest, _, hrest, hne, .number hl hv⟩
    | none => exact ⟨_, rest, _, hrest, hne, .malformed hl hv⟩
  · by_cases hm : isNameStart c = true
    · have hp : IsName [c] := isName_iff.2 ⟨c, [], rfl, hm, List.forall_mem_nil _⟩
      obtain ⟨rest, hrest, hl⟩ := finds_name.exists_longest hp hstart
      obtain ⟨d, ds, hd, -⟩ := hl.1
      exact ⟨_, rest, _, hrest, hd ▸ List.cons_ne_nil _ _, .name hl⟩
    · refine ⟨[c], cs, ?_⟩
      cases ht : Token.ofSymbol? c with
      | some t => exact ⟨_, rfl, List.cons_ne_nil _ _, .symbol (ofSymbol?_eq_some_iff.1 ht)⟩
      | none =>
        rw [Bool.not_eq_true] at hn hm
        exact ⟨_, rfl, List.cons_ne_nil _ _, .stray (isStray_iff.2 ⟨h, hn, hm, ht⟩)⟩

theorem tiles_scan (n : Nat) (cs : List Char) : Tiles n cs (scan n cs) := by
  induction hl : cs.length using Nat.strong_induction_on generalizing n cs with
  | _ length ih =>
    cases cs with
    | nil =>
      rw [scan]
      exact .nil
    | cons c cs =>
      cases hs : Text.isSpacing c with
      | true =>
        rw [scan_spacing hs]
        exact .spacing hs (ih _ (by simp [← hl]) _ _ rfl)
      | false =>
        obtain ⟨run, rest, make, hcs, hne, hh⟩ := exists_heads hs cs
        have hlt : rest.length < length := by
          rw [← hl, hcs, List.length_append]
          exact Nat.lt_add_of_pos_left (List.length_pos_iff.2 hne)
        rw [hcs, scan_of_heads hh]
        exact .piece hh (ih _ hlt _ _ rfl)

theorem tiles_iff : Tiles n cs ps ↔ scan n cs = ps := by
  constructor
  · intro h
    induction h with
    | nil => rw [scan]
    | spacing hs _ ih => rw [scan_spacing hs, ih]
    | piece hh _ ih => rw [scan_of_heads hh, ih]
  · rintro rfl
    exact tiles_scan n cs

end Scanning

end Sketch.Piece
