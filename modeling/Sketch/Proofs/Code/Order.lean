import Sketch.Proofs.Code.Drawing
import Sketch.Proofs.Code.Pattern

/-!
The order in which the commands are tried. It does not matter: no line is read by two readers, and if
they stumble on a number, it is the same number. So a parser with the commands in another order gives
the same elements and the same warnings, but for the order in which they name the commands.
-/

namespace Sketch

namespace Command

variable {α β γ : Type}

/-! ### Results that do not compete -/

/-- One of the results is that the shape is not met, or both are the same bad number. -/
def IsApart (x : Except Mismatch α) (y : Except Mismatch β) : Prop :=
  x = .error .shape ∨ y = .error .shape ∨ ∃ s, x = .error (.number s) ∧ y = .error (.number s)

namespace IsApart

variable {x : Except Mismatch α} {y : Except Mismatch β}

theorem symm (h : IsApart x y) : IsApart y x := by
  rcases h with hx | hy | ⟨s, hx, hy⟩
  · exact .inr (.inl hx)
  · exact .inl hy
  · exact .inr (.inr ⟨s, hy, hx⟩)

theorem of_error (m : Mismatch) : IsApart (.error m : Except Mismatch α) (.error m : Except Mismatch β) := by
  cases m with
  | shape => exact .inl rfl
  | number s => exact .inr (.inr ⟨s, rfl, rfl⟩)

theorem bind_left (h : IsApart x y) (f : α → Except Mismatch γ) : IsApart (x >>= f) y := by
  rcases h with rfl | hy | ⟨s, rfl, hy⟩
  · exact .inl rfl
  · exact .inr (.inl hy)
  · exact .inr (.inr ⟨s, rfl, hy⟩)

variable {a : α} {b : β} {s t : Span}

theorem not_ok (h : IsApart x y) (hx : x = .ok a) : y = .error .shape := by
  subst hx
  rcases h with hx | hy | ⟨s, hx, -⟩
  · contradiction
  · exact hy
  · contradiction

theorem span_eq (h : IsApart x y) (hx : x = .error (.number s)) (hy : y = .error (.number t)) : s = t := by
  subst hx hy
  rcases h with h | h | ⟨r, hs, ht⟩
  · cases h
  · cases h
  · cases hs
    cases ht
    rfl

end IsApart

/-! ### Readers -/

/-- The readers do not compete for a line, wherever they stand in it. -/
def Apart (r : Reader α) (s : Reader β) : Prop := ∀ c, IsApart (r c) (s c)

namespace Apart

variable {δ : Type} {r : Reader α} {s : Reader β}

theorem symm (h : Apart r s) : Apart s r := fun c => (h c).symm

theorem bind_left (h : Apart r s) (f : α → Reader γ) : Apart (r >>= f) s :=
  fun c => (h c).bind_left _

theorem bind (h : Apart r s) (f : α → Reader γ) (g : β → Reader δ) : Apart (r >>= f) (s >>= g) :=
  ((h.bind_left f).symm.bind_left g).symm

/-- Readers that start alike, and come apart later. -/
theorem shared {f : α → Reader β} {g : α → Reader γ} (h : ∀ a, Apart (f a) (g a)) :
    Apart (r >>= f) (r >>= g) := by
  intro c
  cases hr : r c with
  | ok p =>
    rw [bind_apply hr, bind_apply hr]
    exact h p.1 p.2
  | error m =>
    change IsApart (r c >>= fun p => f p.1 p.2) (r c >>= fun p => g p.1 p.2)
    rw [hr]
    exact .of_error m

theorem readLine (h : Apart r s) (line : List Char) : IsApart (readLine r line) (readLine s line) := by
  change IsApart ((r ⟨0, line⟩).map (·.1)) ((s ⟨0, line⟩).map (·.1))
  rcases h ⟨0, line⟩ with hr | hs | ⟨span, hr, hs⟩
  · rw [hr]
    exact .inl rfl
  · rw [hs]
    exact .inr (.inl rfl)
  · rw [hr, hs]
    exact .of_error _

end Apart

/-- No text starts with both words. -/
def Conflict (word other : String) : Prop :=
  ¬word.toList <+: other.toList ∧ ¬other.toList <+: word.toList

instance (word other : String) : Decidable (Conflict word other) :=
  inferInstanceAs (Decidable (_ ∧ _))

variable {word other : String}

theorem apart_literal (h : Conflict word other) : Apart (literal word) (literal other) := by
  intro c
  rw [literal_apply, literal_apply]
  cases hw : Text.after? word.toList c.rest with
  | none => exact .inl rfl
  | some rest =>
    cases ho : Text.after? other.toList c.rest with
    | none => exact .inr (.inl rfl)
    | some rest' =>
      have hpw : word.toList <+: c.rest := ⟨rest, (Text.after?_eq_some.1 hw).symm⟩
      have hpo : other.toList <+: c.rest := ⟨rest', (Text.after?_eq_some.1 ho).symm⟩
      rcases List.prefix_or_prefix_of_prefix hpw hpo with hp | hp
      · exact absurd hp h.1
      · exact absurd hp h.2

theorem apart_keyword (h : Conflict word other) : Apart (keyword word) (keyword other) :=
  .shared fun _ => (apart_literal h).bind _ _

theorem apart_head (h : Conflict word other) : Apart (head word) (head other) := (apart_literal h).bind _ _

/-- Shapes come apart at their keywords. -/
theorem apart_drawing (h : Conflict word other) (f g : Options → Point → Reader Element) :
    Apart
      (do
        let o ← head "\\draw"
        let p ← point
        keyword word
        f o p)
      (do
        let o ← head "\\draw"
        let p ← point
        keyword other
        g o p) :=
  .shared fun _ => .shared fun _ => (apart_keyword h).bind _ _

theorem apart_addplot (h : Conflict word "\\addplot") (axis : Axis) (f : Options → Reader Element) :
    Apart (head word >>= f) (addplot axis) := by
  have hh : Apart (head word) (literal "\\addplot") := (apart_literal h).bind_left _
  exact hh.bind f _

/-! ### The table -/

theorem pairwise_shapes : [circle, rectangle, line, grid].Pairwise Apart := by
  simp only [List.pairwise_cons, List.Pairwise.nil, List.forall_mem_cons, List.not_mem_nil, false_implies,
    implies_true, and_true]
  refine ⟨⟨?_, ?_, ?_⟩, ⟨?_, ?_⟩, ?_⟩
  · exact apart_drawing (by decide) _ _
  · exact apart_drawing (by decide) _ _
  · exact apart_drawing (by decide) _ _
  · exact apart_drawing (by decide) _ _
  · exact apart_drawing (by decide) _ _
  · exact apart_drawing (by decide) _ _

/-- A shape, a label and a plot have different names. -/
theorem pairwise_table (axis : Axis) : ((table axis).map (·.2)).Pairwise Apart := by
  have hnode : ∀ r ∈ [circle, rectangle, line, grid], Apart r node := by
    simp only [List.forall_mem_cons, List.not_mem_nil, false_implies, implies_true, and_true]
    have h : Apart (head "\\draw") (head "\\node") := apart_head (by decide)
    exact ⟨h.bind _ _, h.bind _ _, h.bind _ _, h.bind _ _⟩
  have hplot : ∀ r ∈ [circle, rectangle, line, grid, node], Apart r (addplot axis) := by
    simp only [List.forall_mem_cons, List.not_mem_nil, false_implies, implies_true, and_true]
    have h (f : Options → Reader Element) : Apart (head "\\draw" >>= f) (addplot axis) :=
      apart_addplot (by decide) axis f
    exact ⟨h _, h _, h _, h _, apart_addplot (by decide) axis _⟩
  change (([circle, rectangle, line, grid] ++ [node]) ++ [addplot axis]).Pairwise Apart
  simp only [List.pairwise_append, List.forall_mem_singleton]
  exact ⟨⟨pairwise_shapes, List.pairwise_singleton .., hnode⟩, List.pairwise_singleton .., hplot⟩

/-! ### Lists of readers -/

variable {r s : Reader α} {rs rs' : List (Reader α)} {text : List Char}

theorem firstOf_of_shape (h : readLine r text = .error .shape) (rs : List (Reader α)) :
    firstOf text (r :: rs) = firstOf text rs := by
  rw [firstOf, h]
  dsimp only
  cases firstOf text rs with
  | ok a => rfl
  | error m => rfl

/-- A reader whose shape is not met does not count, and of two equal mismatches either may come first. -/
theorem firstOf_swap (h : IsApart (readLine r text) (readLine s text)) (rs : List (Reader α)) :
    firstOf text (r :: s :: rs) = firstOf text (s :: r :: rs) := by
  rcases h with hr | hs | ⟨span, hr, hs⟩
  · rw [firstOf_of_shape hr, firstOf, firstOf, firstOf_of_shape hr]
  · rw [firstOf_of_shape hs (r :: rs), firstOf, firstOf_of_shape hs, firstOf]
  · simp only [firstOf, hr, hs]

theorem firstOf_perm (h : rs.Perm rs') (ha : rs.Pairwise Apart) (text : List Char) :
    firstOf text rs = firstOf text rs' := by
  induction h with
  | nil => rfl
  | cons r _ ih => rw [firstOf, firstOf, ih (List.pairwise_cons.1 ha).2]
  | swap r s rs =>
    have hsr : Apart s r := (List.pairwise_cons.1 ha).1 r (List.mem_cons_self ..)
    exact firstOf_swap (hsr.readLine text) rs
  | trans h _ ih ih' => exact (ih ha).trans (ih' ((h.pairwise_iff Apart.symm).1 ha))

theorem firstOf_of_mem {a : α} (ha : rs.Pairwise Apart) (hr : r ∈ rs) (h : readLine r text = .ok a) :
    firstOf text rs = .ok a := by
  induction ha with
  | nil => contradiction
  | @cons s rs hs _ ih =>
    rcases List.mem_cons.1 hr with rfl | hr
    · rw [firstOf, h]
    · have hshape := ((hs r hr).symm.readLine text).not_ok h
      rw [firstOf_of_shape hshape, ih hr]

theorem eq_or_apart (ha : rs.Pairwise Apart) : ∀ r ∈ rs, ∀ s ∈ rs, r = s ∨ Apart r s := by
  have : Std.Symm fun r s : Reader α => r = s ∨ Apart r s := ⟨fun r s h => h.imp Eq.symm Apart.symm⟩
  apply List.Pairwise.forall_of_forall
  · exact fun r _ => .inl rfl
  · exact ha.imp .inr

theorem countP_isOk_le (ha : rs.Pairwise Apart) (line : List Char) :
    (rs.countP fun r => (readLine r line).isOk) ≤ 1 := by
  induction ha with
  | nil => exact Nat.zero_le 1
  | @cons r rs hr _ ih =>
    cases h : readLine r line with
    | error m => rwa [List.countP_cons_of_neg (by rw [h]; exact Bool.false_ne_true)]
    | ok a =>
      have hrs : (rs.countP fun r => (readLine r line).isOk) = 0 := by
        refine List.countP_eq_zero.2 fun s hs => ?_
        rw [((hr s hs).readLine line).not_ok h]
        exact Bool.false_ne_true
      rw [List.countP_cons, hrs]
      split <;> decide

/-! ### Parsers with other tables -/

/-- A command by name, and its reader under an axis. -/
structure Recognizer where
  name : String
  read : Axis → Reader Element

/-- The table for all axes at once. -/
def recognizers : List Recognizer :=
  [⟨"circle", fun _ => circle⟩, ⟨"rectangle", fun _ => rectangle⟩, ⟨"line", fun _ => line⟩,
    ⟨"grid", fun _ => grid⟩, ⟨"node", fun _ => node⟩, ⟨"addplot", addplot⟩]

theorem map_recognizers (axis : Axis) :
    recognizers.map (fun r => (r.name, r.read axis)) = table axis := rfl

theorem firstOf_recognizers {table : List Recognizer} (h : table.Perm recognizers) (axis : Axis)
    (line : List Char) : firstOf line (table.map (·.read axis)) = ofLine axis line := by
  have hreaders : (Command.table axis).map (·.2) = recognizers.map (·.read axis) := by
    rw [← map_recognizers, List.map_map]
    rfl
  have ha : (recognizers.map (·.read axis)).Pairwise Apart := hreaders ▸ pairwise_table axis
  rw [ofLine, hreaders]
  exact (firstOf_perm (h.map (·.read axis)).symm ha line).symm

end Command

open Command (Recognizer recognizers)

/-- The warning of a parser with these commands, which are named where none fits. -/
def Mismatch.diagnosticBy (table : List Recognizer) (length : Nat) : Mismatch → Diagnostic
  | .shape => (Mismatch.shape.diagnostic length).advise
      ("supported commands: " ++ ", ".intercalate (table.map (·.name)))
  | .number span => (Mismatch.number span).diagnostic length

theorem Mismatch.diagnosticBy_recognizers (m : Mismatch) (length : Nat) :
    m.diagnosticBy recognizers length = m.diagnostic length := by
  cases m with
  | shape => rfl
  | number span => rfl

namespace Reading

def warningBy (table : List Recognizer) (offset : Nat) (line : List Char) (m : Mismatch) : Diagnostic :=
  let length := Text.size (significant line)
  let start := offset + indentation line
  ((m.diagnosticBy table length).shift start).context (.ofBounds start (start + length))
    "this line is left as written"

/-- Reads a line with the first command of the table that fits. -/
def ofLineBy (table : List Recognizer) (axis : Axis) (offset : Nat) (line : List Char) : Reading :=
  let code := significant line
  if code.isEmpty ∨ Command.pictureBegin.toList.isPrefixOf code ∨ code = Command.pictureEnd.toList then .nothing
  else if code = Command.axisEnd.toList then .axis {}
  else match Command.axis? code with
    | some axis => .axis axis
    | none =>
      match Command.firstOf code (table.map (·.read axis)) with
      | .ok e => .element e
      | .error m => .skipped (warningBy table offset line m)

def ofLinesBy (table : List Recognizer) (axis : Axis) (offset : Nat) : List (List Char) → List Reading
  | [] => []
  | l :: ls =>
    let r := ofLineBy table axis offset l
    r :: ofLinesBy table (r.axisAfter axis) (offset + Text.size l) ls

theorem warningBy_recognizers (offset : Nat) (line : List Char) (m : Mismatch) :
    warningBy recognizers offset line m = warning offset line m := by
  simp only [warningBy, warning, m.diagnosticBy_recognizers]

theorem ofLineBy_recognizers (axis : Axis) (offset : Nat) (line : List Char) :
    ofLineBy recognizers axis offset line = ofLine axis offset line := by
  simp only [ofLineBy, Command.firstOf_recognizers (.refl _), warningBy_recognizers]
  rfl

theorem ofLinesBy_recognizers (axis : Axis) (offset : Nat) (ls : List (List Char)) :
    ofLinesBy recognizers axis offset ls = ofLines axis offset ls := by
  induction ls generalizing axis offset with
  | nil => rfl
  | cons l ls ih => rw [ofLinesBy, ofLines, ofLineBy_recognizers, ih]

end Reading

def Document.ofTextBy (table : List Recognizer) (text : String) : Document :=
  ⟨Reading.ofLinesBy table {} 0 (Text.lines text.toList)⟩

theorem Document.ofTextBy_recognizers (text : String) : ofTextBy recognizers text = ofText text :=
  congrArg Document.mk (Reading.ofLinesBy_recognizers {} 0 (Text.lines text.toList))

/-! ### Readings up to advice -/

def Diagnostic.unadvised (d : Diagnostic) : Diagnostic := { d with help := none }

namespace Reading

/-- The reading without the advice of its warning. -/
def unadvised : Reading → Reading
  | .skipped d => .skipped d.unadvised
  | r => r

variable {table : List Recognizer}

theorem unadvised_warningBy (table : List Recognizer) (offset : Nat) (line : List Char) (m : Mismatch) :
    (warningBy table offset line m).unadvised = (warning offset line m).unadvised := by
  cases m with
  | shape => rfl
  | number span => rfl

@[simp] theorem axisAfter_unadvised (r : Reading) (axis : Axis) :
    r.unadvised.axisAfter axis = r.axisAfter axis := by
  cases r <;> rfl

@[simp] theorem element?_unadvised (r : Reading) : r.unadvised.element? = r.element? := by
  cases r <;> rfl

@[simp] theorem diagnostic?_unadvised (r : Reading) :
    r.unadvised.diagnostic? = r.diagnostic?.map Diagnostic.unadvised := by
  cases r <;> rfl

theorem unadvised_ofLineBy (h : table.Perm recognizers) (axis : Axis) (offset : Nat) (line : List Char) :
    (ofLineBy table axis offset line).unadvised = (ofLine axis offset line).unadvised := by
  unfold ofLineBy ofLine
  dsimp only
  rw [Command.firstOf_recognizers h]
  split
  · rfl
  · split
    · rfl
    · cases Command.axis? (significant line) with
      | some opened => rfl
      | none =>
        cases Command.ofLine axis (significant line) with
        | ok e => rfl
        | error m => exact congrArg skipped (unadvised_warningBy table offset line m)

theorem unadvised_ofLinesBy (h : table.Perm recognizers) (axis : Axis) (offset : Nat)
    (ls : List (List Char)) :
    (ofLinesBy table axis offset ls).map unadvised = (ofLines axis offset ls).map unadvised := by
  induction ls generalizing axis offset with
  | nil => rfl
  | cons l ls ih =>
    have hl := unadvised_ofLineBy h axis offset l
    have ha : (ofLineBy table axis offset l).axisAfter axis = (ofLine axis offset l).axisAfter axis := by
      rw [← axisAfter_unadvised, hl, axisAfter_unadvised]
    rw [ofLinesBy, ofLines, List.map_cons, List.map_cons, hl, ha, ih]

end Reading

namespace Document

open Command (readLine table)
open Reading (unadvised)

theorem elements_eq (d : Document) : d.elements = (d.readings.map unadvised).filterMap (·.element?) := by
  simp only [elements, List.filterMap_map, Function.comp_def, Reading.element?_unadvised]

theorem map_unadvised_diagnostics (d : Document) :
    d.diagnostics.map (·.unadvised) = (d.readings.map unadvised).filterMap (·.diagnostic?) := by
  simp only [diagnostics, List.filterMap_map, List.map_filterMap, Function.comp_def,
    Reading.diagnostic?_unadvised]

/-- At most one command reads a line, none reads what another stumbles on, and all that stumble do so on
the same number. A parser that tries them in another order finds the same elements, skips as many lines,
and warns alike but for its advice. -/
theorem order_irrelevant (axis : Axis) (line : List Char) :
    ((table axis).countP fun p => (readLine p.2 line).isOk) ≤ 1 ∧
      (∀ p ∈ table axis, ∀ q ∈ table axis, ∀ e s,
        readLine p.2 line = .ok e → readLine q.2 line ≠ .error (.number s)) ∧
      (∀ p ∈ table axis, ∀ q ∈ table axis, ∀ s t, readLine p.2 line = .error (.number s) →
        readLine q.2 line = .error (.number t) → s = t) ∧
      (∀ text, ofTextBy recognizers text = ofText text) ∧
      ∀ rs, rs.Perm recognizers → ∀ text,
        (ofTextBy rs text).elements = (ofText text).elements ∧
        (ofTextBy rs text).skipped = (ofText text).skipped ∧
        (ofTextBy rs text).diagnostics.map (fun d => { d with help := none }) =
          (ofText text).diagnostics.map fun d => { d with help := none } := by
  have hpairs (p : String × Command.Reader Element) (hp : p ∈ table axis) (q) (hq : q ∈ table axis) :
      p.2 = q.2 ∨ Command.Apart p.2 q.2 :=
    Command.eq_or_apart (Command.pairwise_table axis) _ (List.mem_map_of_mem hp) _ (List.mem_map_of_mem hq)
  refine ⟨?_, ?_, ?_, ofTextBy_recognizers, ?_⟩
  · have h := Command.countP_isOk_le (Command.pairwise_table axis) line
    rwa [List.countP_map] at h
  · intro p hp q hq e s he hs
    rcases hpairs p hp q hq with h | h
    · rw [h, hs] at he
      contradiction
    · rw [(h.readLine line).not_ok he] at hs
      cases hs
  · intro p hp q hq s t hs ht
    rcases hpairs p hp q hq with h | h
    · rw [h, ht] at hs
      cases hs
      rfl
    · exact (h.readLine line).span_eq hs ht
  · intro rs hrs text
    have h : (ofTextBy rs text).readings.map unadvised = (ofText text).readings.map unadvised :=
      Reading.unadvised_ofLinesBy hrs {} 0 (Text.lines text.toList)
    have hd : (ofTextBy rs text).diagnostics.map (·.unadvised) =
        (ofText text).diagnostics.map (·.unadvised) := by
      rw [map_unadvised_diagnostics, h, map_unadvised_diagnostics]
    refine ⟨?_, ?_, hd⟩
    · rw [elements_eq, h, elements_eq]
    · rw [skipped_eq, skipped_eq]
      simpa using congrArg List.length hd

/-- A line that one command reads. -/
def straight : List Char := "\\draw (0,0) -- (1,1);".toList

/-- All shapes stumble on the first number. -/
def stumbling : List Char := "\\draw (1.2.3,0) -- (1,1);".toList

theorem order_irrelevant_stumbling :
    (∃ e, readLine Command.line straight = .ok e ∧
      readLine Command.circle straight ≠ .error (.number (.ofBounds 7 12))) ∧
    (∃ s t, readLine Command.circle stumbling = .error (.number s) ∧
      readLine Command.grid stumbling = .error (.number t) ∧ s = t) ∧
    recognizers.reverse.Perm recognizers ∧
      (ofTextBy recognizers.reverse (.ofList stumbling)).skipped = (ofText (.ofList stumbling)).skipped := by
  have hcircle : ("circle", Command.circle) ∈ table {} := .head _
  have hline : ("line", Command.line) ∈ table {} := .tail _ (.tail _ (.head _))
  have hgrid : ("grid", Command.grid) ∈ table {} := .tail _ (.tail _ (.tail _ (.head _)))
  have hread : readLine Command.line straight = .ok ⟨.shape (.line ⟨0, 0⟩ ⟨1, 1⟩), {}⟩ := rfl
  have hc : readLine Command.circle stumbling = .error (.number (.ofBounds 7 12)) := rfl
  have hg : readLine Command.grid stumbling = .error (.number (.ofBounds 7 12)) := rfl
  have hperm : recognizers.reverse.Perm recognizers := List.reverse_perm recognizers
  refine ⟨⟨_, hread, ?_⟩, ⟨_, _, hc, hg, ?_⟩, hperm, ?_⟩
  · exact (order_irrelevant {} straight).2.1 _ hline _ hcircle _ _ hread
  · exact (order_irrelevant {} stumbling).2.2.1 _ hcircle _ hgrid _ _ hc hg
  · exact ((order_irrelevant {} stumbling).2.2.2.2 _ hperm _).2.1

end Document

end Sketch
