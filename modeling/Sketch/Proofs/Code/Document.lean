import Sketch.Proofs.Code.Line

/-!
The lines of a whole text. The elements and the warnings of a text together are as many as the lines
that frame nothing, and lines that are put one after the other are read one after the other.
-/

namespace Sketch

namespace Reading

variable {axis : Axis} {offset : Nat} {l : List Char} {ls : List (List Char)} {r : Reading}

instance (line : List Char) : Decidable (IsFrame line) :=
  inferInstanceAs (Decidable (_ ∨ _ ∨ _ ∨ _ ∨ _))

theorem ofLine_cases (h : ¬IsFrame l) (axis : Axis) (offset : Nat) :
    (∃ e, ofLine axis offset l = .element e) ∨ ∃ d, ofLine axis offset l = .skipped d := by
  rw [ofLine_of_not_isFrame h]
  cases Command.ofLine axis (significant l) with
  | ok e => exact .inl ⟨e, rfl⟩
  | error m => exact .inr ⟨_, rfl⟩

/-- A line that frames the picture leaves nothing behind. -/
theorem unrecorded_of_isFrame (h : IsFrame l) (axis : Axis) (offset : Nat) :
    (ofLine axis offset l).element? = none ∧ (ofLine axis offset l).diagnostic? = none := by
  rcases ofLine_of_isFrame h axis offset with hr | ⟨opened, hr⟩
  · rw [hr]
    exact ⟨rfl, rfl⟩
  · rw [hr]
    exact ⟨rfl, rfl⟩

theorem exists_of_mem_ofLines (h : r ∈ ofLines axis offset ls) :
    ∃ l ∈ ls, ∃ (a : Axis) (o : Nat), r = ofLine a o l := by
  induction ls generalizing axis offset with
  | nil => contradiction
  | cons l ls ih =>
    rcases List.mem_cons.1 h with rfl | h
    · exact ⟨l, List.mem_cons_self .., axis, offset, rfl⟩
    · obtain ⟨k, hk, a, o, hr⟩ := ih h
      exact ⟨k, List.mem_cons_of_mem _ hk, a, o, hr⟩

theorem exists_mem_ofLines (h : l ∈ ls) (axis : Axis) (offset : Nat) :
    ∃ (a : Axis) (o : Nat), ofLine a o l ∈ ofLines axis offset ls := by
  induction ls generalizing axis offset with
  | nil => contradiction
  | cons k ls ih =>
    rcases List.mem_cons.1 h with rfl | h
    · exact ⟨axis, offset, List.mem_cons_self ..⟩
    · obtain ⟨a, o, hm⟩ := ih h ((ofLine axis offset k).axisAfter axis) (offset + Text.size k)
      exact ⟨a, o, List.mem_cons_of_mem _ hm⟩

theorem length_elements_add_length_diagnostics (axis : Axis) (offset : Nat) (ls : List (List Char)) :
    ((ofLines axis offset ls).filterMap element?).length +
      ((ofLines axis offset ls).filterMap diagnostic?).length = ls.countP (¬IsFrame ·) := by
  induction ls generalizing axis offset with
  | nil => rfl
  | cons l ls ih =>
    have hih := ih ((ofLine axis offset l).axisAfter axis) (offset + Text.size l)
    rw [ofLines]
    by_cases hl : IsFrame l
    · rw [List.countP_cons_of_neg (by simpa using hl), ← hih]
      rcases ofLine_of_isFrame hl axis offset with hr | ⟨a, hr⟩
      · rw [hr]
        rfl
      · rw [hr]
        rfl
    · rw [List.countP_cons_of_pos (by simpa using hl), ← hih]
      rcases ofLine_cases hl axis offset with ⟨e, hr⟩ | ⟨d, hr⟩
      · rw [hr]
        simp only [List.filterMap_cons, element?, diagnostic?, List.length_cons]
        omega
      · rw [hr]
        simp only [List.filterMap_cons, element?, diagnostic?, List.length_cons]
        omega

/-! ### Readings without a warning -/

/-- What lines are read as under an axis, wherever they stand: these elements, and no warning. -/
def Yields (axis : Axis) (ls : List (List Char)) (es : List Element) : Prop :=
  ∀ offset, (ofLines axis offset ls).filterMap element? = es ∧
    (ofLines axis offset ls).filterMap diagnostic? = []

namespace Yields

variable {es : List Element} {e : Element} {opened : Axis}

theorem nil (axis : Axis) : Yields axis [] [] := fun _ => ⟨rfl, rfl⟩

theorem nothing (hl : ∀ offset, ofLine axis offset l = .nothing) (h : Yields axis ls es) :
    Yields axis (l :: ls) es := by
  intro offset
  rw [ofLines, hl]
  exact h _

theorem opening (hl : ∀ offset, ofLine axis offset l = .axis opened) (h : Yields opened ls es) :
    Yields axis (l :: ls) es := by
  intro offset
  rw [ofLines, hl]
  exact h _

theorem element (hl : ∀ offset, ofLine axis offset l = .element e) (h : Yields axis ls es) :
    Yields axis (l :: ls) (e :: es) := by
  intro offset
  obtain ⟨he, hd⟩ := h (offset + Text.size l)
  rw [ofLines, hl]
  exact ⟨congrArg (e :: ·) he, hd⟩

end Yields

end Reading

namespace Document

theorem skipped_eq (d : Document) : d.skipped = d.diagnostics.length := by
  rw [skipped, diagnostics, List.length_filterMap_eq_countP]

/-- The elements and the warnings of a text are its lines that frame nothing. -/
theorem recognized_add_skipped (text : String) : (ofText text).recognized + (ofText text).skipped =
    (Text.lines text.toList).countP (¬Reading.IsFrame ·) := by
  rw [skipped_eq]
  exact Reading.length_elements_add_length_diagnostics {} 0 _

theorem elements_ofText {text : String} {es : List Element}
    (h : Reading.Yields {} (Text.lines text.toList) es) :
    (ofText text).elements = es ∧ (ofText text).diagnostics = [] :=
  h 0

theorem applyTo_eq_self {d : Document} (h : d.recognized = 0) (s : Scene) : d.applyTo s = s :=
  if_pos (List.isEmpty_iff.2 (List.length_eq_zero_iff.1 h))

theorem applyTo_eq_replaceAll {d : Document} (h : d.recognized ≠ 0) (s : Scene) :
    d.applyTo s = s.replaceAll d.elements := by
  apply if_neg
  intro he
  rw [List.isEmpty_iff] at he
  exact h (congrArg List.length he)

@[simp] theorem elements_applyTo_empty (d : Document) : (d.applyTo {}).elements = d.elements := by
  unfold applyTo
  split
  · next h => exact (List.isEmpty_iff.1 h).symm
  · exact Scene.elements_replaceAll {} d.elements

end Document

end Sketch
