import Sketch.Proofs.Code.Cursor

/-!
The patterns of the commands, segment by segment. A reader goes through the pattern of its command,
and stops where the line does not go on like this, or has a number there that cannot be read.
-/

namespace Sketch

/-- What keeps a line from being read. -/
inductive Obstacle
  | shape
  | number
  deriving DecidableEq

def Mismatch.obstacle : Mismatch → Obstacle
  | .shape => .shape
  | .number _ => .number

theorem Mismatch.obstacle_or (m n : Mismatch) :
    (m.or n).obstacle = .number ↔ m.obstacle = .number ∨ n.obstacle = .number := by
  cases m <;> simp [or, obstacle]

namespace Command

/-- A segment of a command. -/
inductive Segment
  | word (text : String)
  | gap
  | options
  /-- A number after a character and spaces. -/
  | field (opening : Char)
  | braces
  /-- A word with the spaces after it, or nothing. -/
  | maybe (text : String)
  | stop

/-- The text behind a bracket and its partner. -/
def group? (opening closing : Char) (cs : List Char) : Option (List Char) :=
  (Text.after? [opening] cs).bind (Braces.behind? closing 0)

/-- The text behind a segment, if the valid runs of number characters are the numbers. -/
def Segment.read (valid : List Char → Bool) : Segment → List Char → Except Obstacle (List Char)
  | .word text, cs =>
    match Text.after? text.toList cs with
    | some rest => .ok rest
    | none => .error .shape
  | .gap, cs => .ok (cs.dropWhile Text.isSpacing)
  | .options, cs => .ok ((group? '[' ']' cs).getD cs)
  | .field opening, cs =>
    match Text.after? [opening] cs with
    | some rest =>
      let found := rest.dropWhile Text.isSpacing
      let run := found.takeWhile isNumberChar
      if run.isEmpty then .error .shape
      else if valid run then .ok (found.dropWhile isNumberChar)
      else .error .number
    | none => .error .shape
  | .braces, cs =>
    match group? '{' '}' cs with
    | some rest => .ok rest
    | none => .error .shape
  | .maybe text, cs =>
    match Text.after? text.toList cs with
    | some rest => .ok (rest.dropWhile Text.isSpacing)
    | none => .ok cs
  | .stop, cs => if cs.isEmpty then .ok [] else .error .shape

/-- The segments of a command in order. -/
abbrev Pattern := List Segment

/-- The text behind all segments. -/
def Pattern.read (valid : List Char → Bool) (p : Pattern) (cs : List Char) :
    Except Obstacle (List Char) :=
  p.foldlM (fun cs s => s.read valid cs) cs

namespace Pattern

variable {valid : List Char → Bool} {p : Pattern} {cs rest : List Char}

theorem read_append (valid : List Char → Bool) (p q : Pattern) (cs : List Char) :
    read valid (p ++ q) cs = read valid p cs >>= read valid q :=
  List.foldlM_append

theorem read_singleton (valid : List Char → Bool) (s : Segment) (cs : List Char) :
    read valid [s] cs = s.read valid cs :=
  bind_pure _

theorem read_cons (valid : List Char → Bool) (s : Segment) (p : Pattern) (cs : List Char) :
    read valid (s :: p) cs = s.read valid cs >>= read valid p :=
  List.foldlM_cons

theorem read_cons_eq_ok {s : Segment} : read valid (s :: p) cs = .ok rest ↔
    ∃ mid, s.read valid cs = .ok mid ∧ p.read valid mid = .ok rest := by
  rw [read_cons]
  cases s.read valid cs with
  | ok mid => simp [bind, Except.bind]
  | error o => simp [bind, Except.bind]

theorem read_gap_gap (valid : List Char → Bool) (p : Pattern) (cs : List Char) :
    read valid (.gap :: .gap :: p) cs = read valid (.gap :: p) cs := by
  change read valid p ((cs.dropWhile Text.isSpacing).dropWhile Text.isSpacing) = _
  rw [List.dropWhile_idempotent]
  rfl

end Pattern

/-! ### Readers and patterns -/

/-- The run of number characters can be read. -/
def isNumber (run : List Char) : Bool := (Number.readFinite? run).isSome

/-- Any run of number characters will do. -/
def anyRun (_ : List Char) : Bool := true

/-- The text that a reader leaves, or what keeps it from reading. -/
def outcome {α : Type} : Except Mismatch (α × Cursor) → Except Obstacle (List Char)
  | .ok (_, c) => .ok c.rest
  | .error m => .error m.obstacle

/-- The reader reads what is like the pattern, wherever it stands. -/
def Follows {α : Type} (r : Reader α) (p : Pattern) : Prop :=
  ∀ c, outcome (r c) = p.read isNumber c.rest

namespace Follows

variable {α β : Type} {r : Reader α} {f : α → Reader β} {p q : Pattern}

theorem pure (a : α) : Follows (pure a) [] := fun _ => rfl

theorem bind (h : Follows r p) (hf : ∀ a, Follows (f a) q) : Follows (r >>= f) (p ++ q) := by
  intro c
  rw [Pattern.read_append, ← h c]
  change outcome (r c >>= fun p => f p.1 p.2) = _
  cases r c with
  | error m => rfl
  | ok p => exact hf p.1 p.2

theorem map {g : α → β} (h : Follows r p) : Follows (r >>= fun a => Pure.pure (g a)) p := by
  have := h.bind fun a => Follows.pure (g a)
  rwa [List.append_nil] at this

theorem gap_gap (h : Follows r (.gap :: p)) : Follows r (.gap :: .gap :: p) := fun c => by
  rw [Pattern.read_gap_gap, h c]

theorem skips {word : String} {f : Bool → Reader β} (ht : Follows (f true) (.gap :: q))
    (hf : Follows (f false) q) : Follows (skips word >>= f) (.maybe word :: q) := by
  intro c
  rw [Pattern.read, List.foldlM_cons, Segment.read]
  cases hw : Text.after? word.toList c.rest with
  | none =>
    have hs : Command.skips word c = .ok (false, c) := by simp only [Command.skips, hw]
    rw [bind_apply hs]
    exact hf c
  | some rest =>
    have hs : Command.skips word c = .ok (true, ⟨c.offset + Text.size word.toList, rest⟩) := by
      simp only [Command.skips, hw]
    rw [bind_apply hs]
    exact ht _

end Follows

theorem follows_spacing : Follows spacing [.gap] := fun _ => rfl

theorem literal_apply (word : String) (c : Cursor) : literal word c =
    match Text.after? word.toList c.rest with
    | some rest => .ok ((), ⟨c.offset + Text.size word.toList, rest⟩)
    | none => .error .shape := by
  cases hw : Text.after? word.toList c.rest with
  | none =>
    have hs : skips word c = .ok (false, c) := by simp only [skips, hw]
    rw [literal, bind_apply hs]
    rfl
  | some rest =>
    have hs : skips word c = .ok (true, ⟨c.offset + Text.size word.toList, rest⟩) := by
      simp only [skips, hw]
    rw [literal, bind_apply hs]
    rfl

theorem follows_literal (word : String) : Follows (literal word) [.word word] := by
  intro c
  rw [Pattern.read_singleton, Segment.read, literal_apply]
  cases Text.after? word.toList c.rest <;> rfl

theorem group?_cons (opening closing : Char) (cs : List Char) : group? opening closing (opening :: cs) =
    Braces.behind? closing 0 cs := by
  have ha : Text.after? [opening] (opening :: cs) = some cs := Text.after?_eq_some.2 rfl
  rw [group?, ha]
  rfl

theorem group?_eq_none {opening closing : Char} {cs : List Char} (h : ∀ ds, cs ≠ opening :: ds) :
    group? opening closing cs = none := by
  have ha : Text.after? [opening] cs = none := by
    by_contra hn
    obtain ⟨ds, hd⟩ := Option.ne_none_iff_exists'.1 hn
    exact h ds (Text.after?_eq_some.1 hd)
  rw [group?, ha]
  rfl

theorem follows_options : Follows options [.options] := by
  rintro ⟨n, cs⟩
  rw [Pattern.read_singleton]
  unfold options Segment.read
  dsimp only
  split
  · next ds =>
    rw [group?_cons, Braces.behind?]
    rcases hs : Braces.splitBefore? ']' 0 ds with _ | ⟨raw, rest⟩
    · rfl
    · obtain ⟨-, after, rfl⟩ := Braces.endsEscaped_of_splitBefore? hs
      rfl
  · next h =>
    rw [group?_eq_none h]
    rfl

theorem follows_braced : Follows braced [.braces] := by
  rintro ⟨n, cs⟩
  rw [Pattern.read_singleton]
  unfold braced Segment.read
  dsimp only
  split
  · next ds =>
    rw [group?_cons, Braces.behind?]
    rcases hs : Braces.splitBefore? '}' 0 ds with _ | ⟨inner, rest⟩
    · rfl
    · obtain ⟨-, after, rfl⟩ := Braces.endsEscaped_of_splitBefore? hs
      rfl
  · next h =>
    rw [group?_eq_none h]
    rfl

/-- A number in a field. -/
def field (word : String) : Reader Float := do
  literal word
  spacing
  number

theorem follows_field {word : String} {opening : Char} (hw : word.toList = [opening]) :
    Follows (field word) [.field opening] := by
  intro c
  rw [Pattern.read_singleton, Segment.read, ← hw]
  have hl := literal_apply word c
  cases ha : Text.after? word.toList c.rest with
  | none =>
    rw [ha] at hl
    change outcome (literal word c >>= _) = _
    rw [hl]
    rfl
  | some rest =>
    rw [ha] at hl
    let d : Cursor := ⟨c.offset + Text.size word.toList, rest⟩
    have hs : spacing d = .ok ((), ⟨d.offset + Text.size (rest.takeWhile Text.isSpacing),
      rest.dropWhile Text.isSpacing⟩) := rfl
    rw [field, bind_apply hl, bind_apply hs, number_apply]
    dsimp only
    split
    · rfl
    · unfold isNumber
      cases Number.readFinite? ((rest.dropWhile Text.isSpacing).takeWhile isNumberChar) <;> rfl

/-! ### The patterns -/

namespace Pattern

/-- The name of a command and its options. -/
def head (name : String) : Pattern := [.word name, .gap, .options, .gap]

def keyword (word : String) : Pattern := [.gap, .word word, .gap]

def point : Pattern := [.field '(', .gap, .field ',', .gap, .word ")"]

/-- The end of a command. -/
def finish : Pattern := [.gap, .word ";", .gap, .stop]

def circle : Pattern :=
  head "\\draw" ++ (point ++ (keyword "circle" ++
    (.field '(' :: .gap :: .maybe "cm" :: .gap :: .word ")" :: finish)))

def rectangle : Pattern :=
  head "\\draw" ++ (point ++ (keyword "rectangle" ++ (.maybe "++" :: (point ++ finish))))

def line : Pattern := head "\\draw" ++ (point ++ (keyword "--" ++ (point ++ finish)))

def grid : Pattern := head "\\draw" ++ (point ++ (keyword "grid" ++ (point ++ finish)))

def node : Pattern := head "\\node" ++ (keyword "at" ++ (point ++ (.gap :: .braces :: finish)))

def addplot : Pattern :=
  .word "\\addplot" :: .maybe "+" :: .gap :: .options :: .gap :: .braces :: finish

/-- The patterns in the order of the readers. -/
def all : List Pattern := [circle, rectangle, line, grid, node, addplot]

end Pattern

theorem follows_head (name : String) : Follows (head name) (Pattern.head name) :=
  (follows_literal name).bind fun _ => follows_spacing.bind fun _ => follows_options.bind fun _ =>
    follows_spacing.bind fun _ => .pure _

theorem follows_keyword (word : String) : Follows (keyword word) (Pattern.keyword word) :=
  follows_spacing.bind fun _ => (follows_literal word).bind fun _ => follows_spacing

/-- The spaces before a number belong to its field. -/
theorem follows_point : Follows point Pattern.point := by
  have hpoint : point = (do
      let x ← field "("
      spacing
      let y ← field ","
      spacing
      literal ")"
      return ⟨x, y⟩) := by
    simp only [point, field, keyword, bind_assoc]
  rw [hpoint]
  exact (follows_field rfl).bind fun _ => follows_spacing.bind fun _ => (follows_field rfl).bind fun _ =>
    follows_spacing.bind fun _ => (follows_literal _).bind fun _ => .pure _

theorem follows_finish : Follows finish Pattern.finish := by
  refine (follows_keyword ";").bind fun _ c => ?_
  obtain ⟨n, cs⟩ := c
  rw [bind_apply (get_apply _)]
  cases cs <;> rfl

theorem follows_circle : Follows circle Pattern.circle := by
  have hcircle : circle = (do
      let o ← head "\\draw"
      let center ← point
      keyword "circle"
      let radius ← field "("
      spacing
      let _ ← skips "cm"
      spacing
      literal ")"
      finish
      return drawn o (.circle center radius)) := by
    simp only [circle, field, bind_assoc]
  rw [hcircle]
  refine (follows_head _).bind fun _ => follows_point.bind fun _ => (follows_keyword _).bind fun _ => ?_
  refine (follows_field rfl).bind fun _ => follows_spacing.bind fun _ => .skips ?_ ?_
  · exact .gap_gap (follows_spacing.bind fun _ => (follows_literal _).bind fun _ => follows_finish.map)
  · exact follows_spacing.bind fun _ => (follows_literal _).bind fun _ => follows_finish.map

theorem follows_rectangle : Follows rectangle Pattern.rectangle := by
  refine (follows_head _).bind fun _ => follows_point.bind fun _ => (follows_keyword _).bind fun _ => ?_
  refine .skips ?_ ?_
  · exact follows_spacing.bind fun _ => follows_point.bind fun _ => follows_finish.map
  · exact follows_point.bind fun _ => follows_finish.map

theorem follows_line : Follows line Pattern.line :=
  (follows_head _).bind fun _ => follows_point.bind fun _ => (follows_keyword _).bind fun _ =>
    follows_point.bind fun _ => follows_finish.map

theorem follows_grid : Follows grid Pattern.grid :=
  (follows_head _).bind fun _ => follows_point.bind fun _ => (follows_keyword _).bind fun _ =>
    follows_point.bind fun _ => follows_finish.map

theorem follows_node : Follows node Pattern.node :=
  (follows_head _).bind fun _ => (follows_keyword _).bind fun _ => follows_point.bind fun _ =>
    follows_spacing.bind fun _ => follows_braced.bind fun _ => follows_finish.map

theorem follows_addplot (axis : Axis) : Follows (addplot axis) Pattern.addplot := by
  have hrest : Follows (do
      spacing
      let o ← options
      spacing
      let expression ← braced
      finish
      return (⟨.plot ⟨.ofList (Text.trim expression), o.sampling axis⟩, o.styleFor .plot⟩ : Element))
      (.gap :: .options :: .gap :: .braces :: Pattern.finish) :=
    follows_spacing.bind fun _ => follows_options.bind fun _ => follows_spacing.bind fun _ =>
      follows_braced.bind fun _ => follows_finish.map
  exact (follows_literal _).bind fun _ => .skips (.gap_gap hrest) hrest

theorem forall₂_follows (axis : Axis) : List.Forall₂ Follows ((table axis).map (·.2)) Pattern.all :=
  .cons follows_circle <| .cons follows_rectangle <| .cons follows_line <| .cons follows_grid <|
    .cons follows_node <| .cons (follows_addplot axis) .nil

/-! ### Lines -/

/-- A line is like the pattern. -/
def Pattern.fits (valid : List Char → Bool) (p : Pattern) (line : List Char) : Bool :=
  (p.read valid line).isOk

theorem Pattern.fits_iff {valid : List Char → Bool} {p : Pattern} {line : List Char} :
    p.fits valid line = true ↔ ∃ rest, p.read valid line = .ok rest := by
  unfold Pattern.fits
  cases p.read valid line with
  | ok rest => exact iff_of_true rfl ⟨rest, rfl⟩
  | error o => exact iff_of_false Bool.false_ne_true nofun

/-- A line is like the pattern up to a number that cannot be read. -/
def Pattern.stumbles (p : Pattern) (line : List Char) : Bool :=
  p.read isNumber line matches .error .number

section Lines

variable {α : Type} {r : Reader α} {rs : List (Reader α)} {p : Pattern} {ps : List Pattern}
  {line : List Char} {m : Mismatch}

theorem Follows.fits_of_readLine {a : α} (h : Follows r p) (hr : readLine r line = .ok a) :
    p.fits isNumber line = true := by
  change (r ⟨0, line⟩).map (·.1) = _ at hr
  have hc : _ = p.read isNumber line := h ⟨0, line⟩
  cases hl : r ⟨0, line⟩ with
  | ok d =>
    rw [hl] at hc
    rw [Pattern.fits, ← hc]
    rfl
  | error n =>
    rw [hl] at hr
    contradiction

theorem Follows.read_of_readLine (h : Follows r p) (hr : readLine r line = .error m) :
    p.read isNumber line = .error m.obstacle := by
  change (r ⟨0, line⟩).map (·.1) = _ at hr
  have hc : _ = p.read isNumber line := h ⟨0, line⟩
  cases hl : r ⟨0, line⟩ with
  | ok d =>
    rw [hl] at hr
    contradiction
  | error n =>
    rw [hl] at hr hc
    cases hr
    exact hc.symm

theorem exists_firstOf_iff (h : List.Forall₂ Follows rs ps) :
    (∃ a, firstOf line rs = .ok a) ↔ ∃ p ∈ ps, p.fits isNumber line = true := by
  induction h with
  | nil => simp [firstOf]
  | @cons r p rs ps hr _ ih =>
    rw [firstOf, List.exists_mem_cons_iff, ← ih]
    cases hl : readLine r line with
    | ok a => exact iff_of_true ⟨a, rfl⟩ (.inl (hr.fits_of_readLine hl))
    | error m =>
      have hn : ¬p.fits isNumber line = true := by
        rw [Pattern.fits, hr.read_of_readLine hl]
        exact Bool.false_ne_true
      rw [or_iff_right hn]
      cases firstOf line rs with
      | ok a => exact Iff.rfl
      | error n =>
        constructor
        · rintro ⟨a, ha⟩
          contradiction
        · rintro ⟨a, ha⟩
          contradiction

theorem obstacle_of_firstOf (h : List.Forall₂ Follows rs ps) (he : firstOf line rs = .error m) :
    m.obstacle = .number ↔ ∃ p ∈ ps, p.stumbles line = true := by
  induction h generalizing m with
  | nil =>
    cases he
    exact iff_of_false nofun fun ⟨_, hp, _⟩ => List.not_mem_nil hp
  | @cons r p rs ps hr _ ih =>
    rw [firstOf] at he
    cases hl : readLine r line with
    | ok a =>
      rw [hl] at he
      contradiction
    | error k =>
      cases hf : firstOf line rs with
      | ok a =>
        simp only [hl, hf] at he
        contradiction
      | error n =>
        simp only [hl, hf] at he
        cases he
        have hp : p.stumbles line = true ↔ k.obstacle = .number := by
          rw [Pattern.stumbles, hr.read_of_readLine hl]
          cases k <;> simp [Mismatch.obstacle]
        rw [Mismatch.obstacle_or, ih hf, List.exists_mem_cons_iff, hp]

end Lines

theorem exists_ofLine_iff (axis : Axis) (line : List Char) :
    (∃ e, ofLine axis line = .ok e) ↔ ∃ p ∈ Pattern.all, p.fits isNumber line = true :=
  exists_firstOf_iff (forall₂_follows axis)

theorem obstacle_of_ofLine {axis : Axis} {line : List Char} {m : Mismatch}
    (h : ofLine axis line = .error m) :
    m.obstacle = .number ↔ ∃ p ∈ Pattern.all, p.stumbles line = true :=
  obstacle_of_firstOf (forall₂_follows axis) h

end Command

end Sketch
