import Sketch.Expr.Formula
import Sketch.Proofs.Expr.Fault
import Sketch.Proofs.Expr.Piece

/-!
Why a formula is turned down, and where. If a text has bad pieces, each of them is reported in its
place; otherwise one fault of its tokens is. Whatever is marked lies in the text.
-/

namespace Sketch

/-- An error with marks, all of which fit the text. -/
structure Diagnostic.IsErrorIn (d : Diagnostic) (text : String) : Prop where
  severity : d.severity = .error
  marks_ne_nil : d.marks ≠ []
  fits : ∀ m ∈ d.marks, m.span.Fits text

namespace Piece

/-- Where a piece stands. -/
def span : Piece → Span
  | .lexeme l => l.span
  | .stray s | .malformed s => s

/-- A piece that is no token. -/
def isBad : Piece → Bool
  | .lexeme _ => false
  | .stray _ | .malformed _ => true

variable {run rest cs : List Char} {make : Span → Piece} {n : Nat} {p : Piece} {ps : List Piece}
  {text : String}

theorem Heads.span_make (h : Heads run rest make) (s : Span) : (make s).span = s := by
  cases h with
  | number | malformed | name | symbol | stray => rfl

theorem Heads.size_pos (h : Heads run rest make) : 0 < Text.size run := by
  have hcons (c : Char) (ds : List Char) : 0 < Text.size (c :: ds) :=
    Nat.add_pos_left (Char.utf8Size_pos c) _
  cases h with
  | number hr _ | malformed hr _ =>
    obtain ⟨c, ds, rfl, -⟩ := exists_cons_of_isNumeral hr.1
    exact hcons c ds
  | name hr =>
    obtain ⟨c, ds, rfl, -⟩ := hr.1
    exact hcons c ds
  | symbol _ | stray _ => exact hcons _ []

/-- A piece is in its place: cut out of the text there, it is what the text goes on with. -/
def StandsIn (p : Piece) (text : List Char) : Prop :=
  ∃ run rest make, Heads run rest make ∧ p = make p.span ∧ p.span.Covers text run

/-- Each piece is what the text goes on with behind some front part of it. -/
theorem Tiles.exists_split (h : Tiles n cs ps) (before : List Char) (hn : n = Text.size before) :
    ∀ p ∈ ps, ∃ front run rest make, before ++ cs = front ++ (run ++ rest) ∧ Heads run rest make ∧
      p = make (.ofBounds (Text.size front) (Text.size front + Text.size run)) := by
  induction h generalizing before with
  | nil => exact List.forall_mem_nil _
  | @spacing n c cs ps hc h ih =>
    have hsize := (classes_of_isSpacing hc).2.2
    have := ih (before ++ [c]) (by simp [hn, hsize])
    simpa using this
  | @piece n run rest make ps hh h ih =>
    refine List.forall_mem_cons.2 ⟨⟨before, run, rest, make, rfl, hh, by rw [hn]⟩, ?_⟩
    have := ih (before ++ run) (by simp [hn])
    rwa [List.append_assoc] at this

theorem Tiles.standsIn (h : Tiles n cs ps) (before : List Char) (hn : n = Text.size before) :
    ∀ p ∈ ps, p.StandsIn (before ++ cs) := by
  intro p hp
  obtain ⟨front, run, rest, make, hcs, hh, rfl⟩ := h.exists_split before hn p hp
  refine ⟨run, rest, make, hh, ?_, ?_⟩
  · rw [hh.span_make]
  · rw [hh.span_make]
    exact .ofBounds hcs

/-- Pieces stand one after the other, none of them empty. -/
theorem Tiles.ordered (h : Tiles n cs ps) : (∀ p ∈ ps, n ≤ p.span.start) ∧
    ps.Pairwise fun p q => p.span.start < q.span.start ∧ p.span.stop ≤ q.span.start := by
  induction h with
  | nil => exact ⟨List.forall_mem_nil _, .nil⟩
  | @spacing n c cs ps hc h ih =>
    exact ⟨fun p hp => Nat.le_of_succ_le (ih.1 p hp), ih.2⟩
  | @piece n run rest make ps hh h ih =>
    obtain ⟨hfirst, hpairs⟩ := ih
    obtain ⟨hstart, hstop⟩ := Span.ofBounds_add n (Text.size run)
    have hpos := hh.size_pos
    refine ⟨List.forall_mem_cons.2 ⟨?_, fun p hp => ?_⟩, List.pairwise_cons.2 ⟨fun q hq => ?_, hpairs⟩⟩
    · rw [hh.span_make, hstart]
    · exact Nat.le_of_add_right_le (hfirst p hp)
    · rw [hh.span_make, hstart, hstop]
      have := hfirst q hq
      omega

/-- The diagnostic is about this piece, which is no token, and marks just the piece. -/
def Reports (text : String) (p : Piece) (d : Diagnostic) : Prop :=
  d.severity = .error ∧ (∃ message, d.marks = [⟨p.span, message, true⟩]) ∧
    ((d.code.map Code.number = some "E001" ∧
        ∃ c, IsStray c ∧ p.span.Cuts text (String.singleton c)) ∨
      (d.code.map Code.number = some "E002" ∧
        ∃ run, IsNumeral run ∧ Number.read? run = none ∧ p.span.Cuts text (String.ofList run)))

theorem exists_reports (h : p.StandsIn text.toList) (hp : p.isBad = true) :
    ∃ d, p.diagnostic? = some d ∧ Reports text p d := by
  obtain ⟨run, rest, make, hh, he, hc⟩ := h
  cases p with
  | lexeme l => contradiction
  | stray s =>
    cases hh with
    | @stray c _ hs => exact ⟨_, rfl, rfl, ⟨_, rfl⟩, .inl ⟨rfl, c, hs, hc.cuts⟩⟩
    | number => contradiction
    | malformed => contradiction
    | name => contradiction
    | symbol => contradiction
  | malformed s =>
    cases hh with
    | malformed hr hv => exact ⟨_, rfl, rfl, ⟨_, rfl⟩, .inr ⟨rfl, run, hr.1, hv, hc.cuts⟩⟩
    | number => contradiction
    | stray => contradiction
    | name => contradiction
    | symbol => contradiction

theorem Reports.isErrorIn {d : Diagnostic} (h : Reports text p d) : d.IsErrorIn text := by
  obtain ⟨hs, ⟨message, hm⟩, hcode⟩ := h
  have hfits : p.span.Fits text := by
    rcases hcode with ⟨-, c, -, hc⟩ | ⟨-, run, -, -, hc⟩
    · exact hc.fits
    · exact hc.fits
  refine ⟨hs, hm ▸ List.cons_ne_nil _ _, ?_⟩
  rw [hm]
  exact List.forall_mem_singleton.2 hfits

/-- The bad pieces of a text are reported one by one. -/
theorem forall₂_reports (h : ∀ p ∈ ps, p.StandsIn text.toList) :
    List.Forall₂ (Reports text) (ps.filter isBad) (ps.filterMap diagnostic?) := by
  induction ps with
  | nil => exact .nil
  | cons p ps ih =>
    obtain ⟨hp, hps⟩ := List.forall_mem_cons.1 h
    cases hb : p.isBad with
    | true =>
      obtain ⟨d, hd, hr⟩ := exists_reports hp hb
      rw [List.filter_cons_of_pos hb, List.filterMap_cons_some hd]
      exact .cons hr (ih hps)
    | false =>
      have hn : p.diagnostic? = none := by
        cases p with
        | lexeme l => rfl
        | stray | malformed => contradiction
      rw [List.filter_cons_of_neg (by simp [hb]), List.filterMap_cons_none hn]
      exact ih hps

theorem diagnostic?_eq_none_iff : p.diagnostic? = none ↔ p.isBad = false := by
  cases p with
  | lexeme l => exact iff_of_true rfl rfl
  | stray s => exact iff_of_false (Option.some_ne_none _) Bool.noConfusion
  | malformed s => exact iff_of_false (Option.some_ne_none _) Bool.noConfusion

theorem diagnostics_eq_nil_iff : ps.filterMap diagnostic? = [] ↔ ∀ p ∈ ps, p.isBad = false := by
  rw [List.filterMap_eq_nil_iff]
  exact forall₂_congr fun _ _ => diagnostic?_eq_none_iff

theorem eq_map_lexeme (h : ∀ p ∈ ps, p.isBad = false) : ps = (ps.filterMap lexeme?).map .lexeme := by
  induction ps with
  | nil => rfl
  | cons p ps ih =>
    obtain ⟨hp, hps⟩ := List.forall_mem_cons.1 h
    cases p with
    | lexeme l => exact congrArg (.lexeme l :: ·) (ih hps)
    | stray | malformed => contradiction

end Piece

namespace Lexeme

variable {cs : List Char}

theorem ofText_of_bad (h : ∃ p ∈ Piece.scan 0 cs, p.isBad = true) :
    ofText cs = .error ⟨(Piece.scan 0 cs).filterMap Piece.diagnostic?⟩ := by
  unfold ofText
  dsimp only
  split
  · next hd =>
    obtain ⟨p, hp, hb⟩ := h
    rw [Piece.diagnostics_eq_nil_iff.1 hd p hp] at hb
    contradiction
  · rfl

/-- If no piece is bad, the tokens are all of the pieces. -/
theorem ofText_of_good (h : ∀ p ∈ Piece.scan 0 cs, p.isBad = false) :
    ∃ ts, ofText cs = .ok ts ∧ Piece.scan 0 cs = ts.map .lexeme := by
  refine ⟨_, ?_, Piece.eq_map_lexeme h⟩
  unfold ofText
  dsimp only
  rw [Piece.diagnostics_eq_nil_iff.2 h]

theorem fits_of_scan {source : String} {ts : List Lexeme}
    (h : Piece.scan 0 source.toList = ts.map .lexeme) : ∀ t ∈ ts, t.span.Fits source := by
  intro t ht
  have hstands := (Piece.tiles_scan 0 source.toList).standsIn [] rfl (.lexeme t)
    (h ▸ List.mem_map_of_mem ht)
  obtain ⟨run, rest, make, -, -, hc⟩ := hstands
  exact hc.cuts.fits

end Lexeme

namespace Formula

variable {source : String} {ts : List Lexeme} {r : Rejection}

theorem ofText_of_lexemes (h : Lexeme.ofText source.toList = .ok ts) : ofText source =
    match Expr.parse ts with
    | .ok expr => .ok ⟨source, expr⟩
    | .error fault => .error ⟨[fault.diagnostic (Text.size source.toList)]⟩ := by
  unfold ofText
  dsimp only
  rw [h]
  rfl

theorem ofText_of_bad (h : ∃ p ∈ Piece.scan 0 source.toList, p.isBad = true) :
    ofText source = .error ⟨(Piece.scan 0 source.toList).filterMap Piece.diagnostic?⟩ := by
  unfold ofText
  dsimp only
  rw [Lexeme.ofText_of_bad h]
  rfl

theorem isErrorIn_of_bad (h : ∃ p ∈ Piece.scan 0 source.toList, p.isBad = true)
    (hr : ofText source = .error r) : r.diagnostics ≠ [] ∧ ∀ d ∈ r.diagnostics, d.IsErrorIn source := by
  rw [ofText_of_bad h] at hr
  cases hr
  refine ⟨fun hn => ?_, fun d hd => ?_⟩
  · obtain ⟨p, hp, hb⟩ := h
    rw [Piece.diagnostics_eq_nil_iff.1 hn p hp] at hb
    contradiction
  · obtain ⟨p, hp, hd⟩ := List.mem_filterMap.1 hd
    have hstands := (Piece.tiles_scan 0 source.toList).standsIn [] rfl p hp
    have hb : p.isBad = true := by
      by_contra hb
      rw [Bool.not_eq_true, ← Piece.diagnostic?_eq_none_iff, hd] at hb
      contradiction
    obtain ⟨e, he, hr⟩ := Piece.exists_reports hstands hb
    cases hd.symm.trans he
    exact hr.isErrorIn

theorem isErrorIn_of_lexemes (h : Lexeme.ofText source.toList = .ok ts)
    (hts : ∀ t ∈ ts, t.span.Fits source) (hr : ofText source = .error r) :
    r.diagnostics ≠ [] ∧ ∀ d ∈ r.diagnostics, d.IsErrorIn source := by
  rw [ofText_of_lexemes h] at hr
  cases hp : Expr.parse ts with
  | ok e =>
    rw [hp] at hr
    contradiction
  | error fault =>
    rw [hp] at hr
    cases hr
    have hu (s t : Span) (hs : s.Fits source) (ht : t.Fits source) := hs.union ht
    obtain ⟨hne, hmarks⟩ := Fault.marks_diagnostic hu (Span.fits_empty_size source)
      (Span.fits_ofBounds_zero source) (Expr.blames_parse hu hts fault hp)
    exact ⟨List.cons_ne_nil _ _, List.forall_mem_singleton.2 ⟨fault.severity_diagnostic _, hne, hmarks⟩⟩

/-- A text with bad pieces is turned down for each of them, in their order. Otherwise it is a formula,
or it is turned down for one fault of its tokens. Whatever is marked is a part of the text. -/
theorem ofText_rejects (source : String) : ∃ pieces,
    (∀ ps, Piece.Tiles 0 source.toList ps ↔ ps = pieces) ∧
    ((∃ p ∈ pieces, p.isBad = true) → ∃ ds, ofText source = .error ⟨ds⟩ ∧
      List.Forall₂ (Piece.Reports source) (pieces.filter Piece.isBad) ds ∧
      (pieces.filter Piece.isBad).Pairwise fun p q =>
        p.span.start < q.span.start ∧ p.span.stop ≤ q.span.start) ∧
    ((∀ p ∈ pieces, p.isBad = false) → (∃ f, ofText source = .ok f) ∨
      ∃ d c, ofText source = .error ⟨[d]⟩ ∧ d.code = some c ∧
        c.number ∈ ["E100", "E101", "E102", "E103", "E104", "E105"]) ∧
    ∀ r, ofText source = .error r → r.diagnostics ≠ [] ∧ ∀ d ∈ r.diagnostics, d.IsErrorIn source := by
  have htiles := Piece.tiles_scan 0 source.toList
  refine ⟨Piece.scan 0 source.toList, fun ps => Piece.tiles_iff.trans eq_comm, fun hbad => ?_,
    fun hgood => ?_, fun r hr => ?_⟩
  · exact ⟨_, ofText_of_bad hbad, Piece.forall₂_reports (htiles.standsIn [] rfl),
      htiles.ordered.2.filter _⟩
  · obtain ⟨ts, hts, -⟩ := Lexeme.ofText_of_good hgood
    rw [ofText_of_lexemes hts]
    cases Expr.parse ts with
    | ok e => exact .inl ⟨_, rfl⟩
    | error fault =>
      obtain ⟨c, hc, hm⟩ := fault.code_diagnostic (Text.size source.toList)
      exact .inr ⟨_, c, rfl, hc, hm⟩
  · by_cases hbad : ∃ p ∈ Piece.scan 0 source.toList, p.isBad = true
    · exact isErrorIn_of_bad hbad hr
    · obtain ⟨ts, hts, hscan⟩ := Lexeme.ofText_of_good (by simpa using hbad)
      exact isErrorIn_of_lexemes hts (Lexeme.fits_of_scan hscan) hr

example : (match ofText "1.2.3 + $ y" with
    | .ok _ => []
    | .error r => r.diagnostics.map fun d => (d.code, d.marks.map (·.span.text))) =
      [(some .malformedNumber, ["0..5"]), (some .unexpectedCharacter, ["8..9"])] := by
  decide +kernel

end Formula

end Sketch
