import Sketch.Proofs.Code.Reader
import Sketch.Proofs.Span

/-!
Where readers are. A reader always knows its place in the line, so a number that it cannot read stands
where the reader says that it does.
-/

namespace Sketch

/-- The cursor stands in the line. -/
def Cursor.IsIn (c : Cursor) (line : List Char) : Prop :=
  ∃ front, line = front ++ c.rest ∧ c.offset = Text.size front

theorem Cursor.IsIn.advance {c : Cursor} {line taken rest : List Char} (h : c.IsIn line)
    (hc : c.rest = taken ++ rest) : (Cursor.mk (c.offset + Text.size taken) rest).IsIn line := by
  obtain ⟨front, rfl, ho⟩ := h
  refine ⟨front ++ taken, ?_, ?_⟩
  · rw [hc, List.append_assoc]
  · rw [ho, Text.size_append]

namespace Command

/-- The span covers a run of number characters that is no finite number. -/
def IsMalformed (s : Span) (line : List Char) : Prop :=
  ∃ run, s.Covers line run ∧ run ≠ [] ∧ (∀ c ∈ run, isNumberChar c = true) ∧
    Number.readFinite? run = none

/-- A reader that stays in its line, and stumbles only on numbers that stand there. -/
structure Tracks {α : Type} (r : Reader α) : Prop where
  isIn : ∀ {line c a d}, c.IsIn line → r c = .ok (a, d) → d.IsIn line
  isMalformed : ∀ {line c s}, c.IsIn line → r c = .error (.number s) → IsMalformed s line

namespace Tracks

variable {α β : Type} {r : Reader α} {f : α → Reader β}

theorem pure (a : α) : Tracks (pure a) where
  isIn h he := by rwa [(eq_of_pure_eq he).2]
  isMalformed _ he := by contradiction

theorem bind (h : Tracks r) (hf : ∀ a, Tracks (f a)) : Tracks (r >>= f) where
  isIn hc he := by
    obtain ⟨a, k, hr, hfa⟩ := exists_of_bind_eq he
    exact (hf a).isIn (h.isIn hc hr) hfa
  isMalformed hc he := by
    rcases error_of_bind_eq he with hr | ⟨a, k, hr, hfa⟩
    · exact h.isMalformed hc hr
    · exact (hf a).isMalformed (h.isIn hc hr) hfa

theorem mismatch : Tracks (throw .shape : Reader α) where
  isIn _ he := by cases he
  isMalformed _ he := by cases he

theorem get : Tracks (get : Reader Cursor) where
  isIn hc he := by
    cases he
    exact hc
  isMalformed _ he := by contradiction

/-- A reader that cannot stumble on a number, and takes what it says. -/
theorem of_taken (hok : ∀ {c a d}, r c = .ok (a, d) → ∃ taken, c.rest = taken ++ d.rest ∧
      d.offset = c.offset + Text.size taken) (herror : ∀ {c m}, r c = .error m → m = .shape) :
    Tracks r where
  isIn hc he := by
    obtain ⟨taken, ht, ho⟩ := hok he
    have := hc.advance ht
    rwa [← ho] at this
  isMalformed _ he := by
    cases herror he

end Tracks

/-! ### The readers -/

theorem tracks_run (p : Char → Bool) : Tracks (run p) := by
  refine .of_taken (fun h => ?_) fun h => by contradiction
  cases h
  exact ⟨_, List.takeWhile_append_dropWhile.symm, rfl⟩

theorem tracks_skips (word : String) : Tracks (skips word) := by
  refine .of_taken (fun {c a d} h => ?_) fun {c m} h => ?_
  · unfold skips at h
    split at h
    · next rest hr =>
      cases h
      exact ⟨_, Text.after?_eq_some.1 hr, rfl⟩
    · cases h
      exact ⟨[], rfl, rfl⟩
  · unfold skips at h
    split at h
    · contradiction
    · contradiction

theorem exists_taken_of_splitBefore? {c : Cursor} {opening closing b : Char}
    {cs inner rest : List Char} (hc : c.rest = opening :: cs)
    (hs : Braces.splitBefore? closing 0 cs = some (inner, b :: rest))
    (ho : opening.utf8Size = 1) (hb : closing.utf8Size = 1) :
    ∃ taken, c.rest = taken ++ rest ∧ c.offset + Text.size inner + 2 = c.offset + Text.size taken := by
  obtain ⟨-, after, ha⟩ := Braces.endsEscaped_of_splitBefore? hs
  obtain ⟨rfl, rfl⟩ := List.cons.inj ha
  refine ⟨opening :: (inner ++ [b]), ?_, ?_⟩
  · rw [hc, ← Braces.append_of_splitBefore? hs, List.cons_append, List.append_assoc]
    rfl
  · rw [Text.size_cons, Text.size_append, Text.size_cons, Text.size_nil, ho, hb]
    omega

theorem tracks_options : Tracks options := by
  refine .of_taken (fun {c a d} h => ?_) fun {c m} h => ?_
  · unfold options at h
    split at h
    · next cs hc =>
      split at h
      · next raw b rest hs =>
        cases h
        exact exists_taken_of_splitBefore? hc hs rfl rfl
      · cases h
        exact ⟨[], rfl, rfl⟩
    · cases h
      exact ⟨[], rfl, rfl⟩
  · unfold options at h
    split at h
    · split at h
      · contradiction
      · contradiction
    · contradiction

theorem tracks_braced : Tracks braced := by
  refine .of_taken (fun {c a d} h => ?_) fun {c m} h => ?_
  · unfold braced at h
    split at h
    · next cs hc =>
      split at h
      · next inner b rest hs =>
        cases h
        exact exists_taken_of_splitBefore? hc hs rfl rfl
      · contradiction
    · contradiction
  · unfold braced at h
    split at h
    · split at h
      · contradiction
      · cases h
        rfl
    · cases h
      rfl

theorem number_apply (c : Cursor) : number c =
    let digits := c.rest.takeWhile isNumberChar
    if digits.isEmpty then .error .shape
    else match Number.readFinite? digits with
      | some x => .ok (x, ⟨c.offset + Text.size digits, c.rest.dropWhile isNumberChar⟩)
      | none => .error (.number (.ofBounds c.offset (c.offset + Text.size digits))) := by
  unfold number
  rw [bind_apply (get_apply c)]
  dsimp only
  have hrun : run isNumberChar c = .ok (c.rest.takeWhile isNumberChar,
      ⟨c.offset + Text.size (c.rest.takeWhile isNumberChar), c.rest.dropWhile isNumberChar⟩) := rfl
  rw [bind_apply hrun]
  split
  · rfl
  · cases Number.readFinite? (c.rest.takeWhile isNumberChar) with
    | some x => rfl
    | none => rfl

theorem tracks_number : Tracks number where
  isIn {line c a d} hc he := by
    rw [number_apply] at he
    dsimp only at he
    split at he
    · contradiction
    · split at he
      · cases he
        exact hc.advance List.takeWhile_append_dropWhile.symm
      · contradiction
  isMalformed {line c s} hc he := by
    rw [number_apply] at he
    dsimp only at he
    split at he
    · cases he
    · next hn =>
      split at he
      · contradiction
      · next hr =>
        cases he
        obtain ⟨front, hline, ho⟩ := hc
        refine ⟨c.rest.takeWhile isNumberChar, ?_, fun h => hn (by rw [h]; rfl), ?_, hr⟩
        · rw [ho]
          apply Span.Covers.ofBounds
          rw [List.takeWhile_append_dropWhile, hline]
        · exact fun _ hd => List.mem_takeWhile_imp hd

theorem tracks_spacing : Tracks spacing := (tracks_run _).bind fun _ => .pure ()

theorem tracks_literal (word : String) : Tracks (literal word) := by
  refine (tracks_skips word).bind fun found => ?_
  cases found with
  | true => exact .pure ()
  | false => exact .mismatch

theorem tracks_keyword (word : String) : Tracks (keyword word) :=
  tracks_spacing.bind fun _ => (tracks_literal word).bind fun _ => tracks_spacing

theorem tracks_point : Tracks point :=
  (tracks_literal _).bind fun _ => tracks_spacing.bind fun _ => tracks_number.bind fun _ =>
    (tracks_keyword _).bind fun _ => tracks_number.bind fun _ => tracks_spacing.bind fun _ =>
      (tracks_literal _).bind fun _ => .pure _

theorem tracks_head (name : String) : Tracks (head name) :=
  (tracks_literal _).bind fun _ => tracks_spacing.bind fun _ => tracks_options.bind fun _ =>
    tracks_spacing.bind fun _ => .pure _

theorem tracks_finish : Tracks finish := by
  refine (tracks_keyword _).bind fun _ => Tracks.get.bind fun c => ?_
  cases c.rest.isEmpty with
  | true => exact .pure ()
  | false => exact .mismatch

theorem tracks_circle : Tracks circle :=
  (tracks_head _).bind fun _ => tracks_point.bind fun _ => (tracks_keyword _).bind fun _ =>
    (tracks_literal _).bind fun _ => tracks_spacing.bind fun _ => tracks_number.bind fun _ =>
      tracks_spacing.bind fun _ => (tracks_skips _).bind fun _ => tracks_spacing.bind fun _ =>
        (tracks_literal _).bind fun _ => tracks_finish.bind fun _ => .pure _

theorem tracks_rectangle : Tracks rectangle := by
  refine (tracks_head _).bind fun _ => tracks_point.bind fun _ => (tracks_keyword _).bind fun _ => ?_
  refine (tracks_skips _).bind fun relative => ?_
  cases relative with
  | true =>
    exact tracks_spacing.bind fun _ => tracks_point.bind fun _ => tracks_finish.bind fun _ => .pure _
  | false => exact tracks_point.bind fun _ => tracks_finish.bind fun _ => .pure _

theorem tracks_line : Tracks line :=
  (tracks_head _).bind fun _ => tracks_point.bind fun _ => (tracks_keyword _).bind fun _ =>
    tracks_point.bind fun _ => tracks_finish.bind fun _ => .pure _

theorem tracks_grid : Tracks grid :=
  (tracks_head _).bind fun _ => tracks_point.bind fun _ => (tracks_keyword _).bind fun _ =>
    tracks_point.bind fun _ => tracks_finish.bind fun _ => .pure _

theorem tracks_node : Tracks node :=
  (tracks_head _).bind fun _ => (tracks_keyword _).bind fun _ => tracks_point.bind fun _ =>
    tracks_spacing.bind fun _ => tracks_braced.bind fun _ => tracks_finish.bind fun _ => .pure _

theorem tracks_addplot (axis : Axis) : Tracks (addplot axis) :=
  (tracks_literal _).bind fun _ => (tracks_skips _).bind fun _ => tracks_spacing.bind fun _ =>
    tracks_options.bind fun _ => tracks_spacing.bind fun _ => tracks_braced.bind fun _ =>
      tracks_finish.bind fun _ => .pure _

/-! ### Lines -/

theorem tracks_table (axis : Axis) : ∀ r ∈ (table axis).map (·.2), Tracks r := by
  intro r hr
  simp only [table, List.map_cons, List.map_nil, List.mem_cons, List.not_mem_nil, or_false] at hr
  rcases hr with rfl | rfl | rfl | rfl | rfl | rfl
  · exact tracks_circle
  · exact tracks_rectangle
  · exact tracks_line
  · exact tracks_grid
  · exact tracks_node
  · exact tracks_addplot axis

theorem Tracks.isMalformed_of_readLine {α : Type} {r : Reader α} (hr : Tracks r) {line : List Char}
    {s : Span} (h : readLine r line = .error (.number s)) : IsMalformed s line := by
  change (r ⟨0, line⟩).map (·.1) = _ at h
  have hc : (Cursor.mk 0 line).IsIn line := ⟨[], rfl, rfl⟩
  cases he : r ⟨0, line⟩ with
  | ok p =>
    rw [he] at h
    cases h
  | error m =>
    rw [he] at h
    cases h
    exact hr.isMalformed hc he

/-- Of the readers that are tried, one has stumbled on the number that is reported. -/
theorem isMalformed_of_firstOf {α : Type} {line : List Char} {rs : List (Reader α)} {s : Span}
    (hr : ∀ r ∈ rs, Tracks r) (h : firstOf line rs = .error (.number s)) : IsMalformed s line := by
  induction rs with
  | nil => cases h
  | cons r rs ih =>
    obtain ⟨hr, hrs⟩ := List.forall_mem_cons.1 hr
    rw [firstOf] at h
    cases hl : readLine r line with
    | ok a =>
      rw [hl] at h
      cases h
    | error m =>
      cases hf : firstOf line rs with
      | ok a =>
        simp only [hl, hf] at h
        cases h
      | error n =>
        simp only [hl, hf] at h
        cases m with
        | shape =>
          cases h
          exact ih hrs hf
        | number t =>
          cases h
          exact hr.isMalformed_of_readLine hl

theorem isMalformed_of_ofLine {axis : Axis} {line : List Char} {s : Span}
    (h : ofLine axis line = .error (.number s)) : IsMalformed s line :=
  isMalformed_of_firstOf (tracks_table axis) h

end Command

end Sketch
