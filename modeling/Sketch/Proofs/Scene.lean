import Mathlib.Data.List.Induction
import Mathlib.Data.List.Nodup
import Sketch.Code.Document

/-!
The numbers under which scenes keep elements. The number of an element is its place among all those
that were ever added, so it never names another one. What a scene holds is always a part of these
elements, in the order in which they were added.
-/

namespace Sketch.Scene

/-- What can be done to a scene. -/
inductive Operation
  | add (e : Element)
  | remove (id : ElementId)
  | clear
  | replaceAll (es : List Element)
  | apply (d : Document)

def after (s : Scene) : Operation → Scene
  | .add e => s.add e
  | .remove i => s.remove i
  | .clear => s.clear
  | .replaceAll es => s.replaceAll es
  | .apply d => d.applyTo s

/-- The scene after operations on a new one. -/
def run (os : List Operation) : Scene := os.foldl after {}

/-- The elements that an operation adds. -/
def Operation.added : Operation → List Element
  | .add e => [e]
  | .replaceAll es => es
  | .apply d => d.elements
  | .remove _ | .clear => []

/-- Elements that are added one after the other, under the numbers that they get. -/
def numbered (es : List Element) : List Placed := es.mapIdx fun n e => ⟨⟨n + 1⟩, e⟩

/-- All elements that operations add, also those that are gone, under their numbers. -/
def given (os : List Operation) : List Placed := numbered (os.flatMap Operation.added)

variable {s t : Scene} {es fs : List Element} {p q : Placed}

@[simp] theorem run_concat (os : List Operation) (o : Operation) :
    run (os ++ [o]) = (run os).after o := by
  rw [run, List.foldl_append, List.foldl_cons, List.foldl_nil, run]

/-! ### Numbers -/

theorem length_numbered (es : List Element) : (numbered es).length = es.length :=
  List.length_mapIdx

theorem numbered_concat (es : List Element) (e : Element) :
    numbered (es ++ [e]) = numbered es ++ [⟨⟨es.length + 1⟩, e⟩] :=
  List.mapIdx_concat

theorem sublist_numbered_append (es fs : List Element) :
    (numbered es).Sublist (numbered (es ++ fs)) := by
  rw [numbered, numbered, List.mapIdx_append]
  exact List.sublist_append_left ..

theorem number_le_of_mem (h : p ∈ numbered es) : p.id.number ≤ es.length := by
  obtain ⟨n, hn, rfl⟩ := List.mem_mapIdx.1 h
  exact hn

theorem pairwise_numbered (es : List Element) :
    (numbered es).Pairwise (·.id.number < ·.id.number) := by
  induction es using List.reverseRecOn with
  | nil => exact .nil
  | append_singleton es e ih =>
    rw [numbered_concat, List.pairwise_append]
    refine ⟨ih, List.pairwise_singleton .., fun p hp q hq => ?_⟩
    rw [List.mem_singleton.1 hq]
    exact Nat.lt_succ_of_le (number_le_of_mem hp)

/-- A number names one element. -/
theorem eq_of_mem_numbered (hp : p ∈ numbered es) (hq : q ∈ numbered es) (h : p.id = q.id) :
    p = q := by
  obtain ⟨m, hm, rfl⟩ := List.mem_mapIdx.1 hp
  obtain ⟨n, hn, rfl⟩ := List.mem_mapIdx.1 hq
  obtain rfl : m = n := Nat.succ.inj (congrArg ElementId.number h)
  rfl

/-! ### What a scene holds -/

/-- A scene holds some of these elements, and has given out the numbers of them all. -/
structure Holds (s : Scene) (es : List Element) : Prop where
  allocated : s.allocated = es.length
  placed : s.placed.Sublist (numbered es)

namespace Holds

theorem empty : Holds {} [] := ⟨rfl, .slnil⟩

theorem add (h : s.Holds es) (e : Element) : (s.add e).Holds (es ++ [e]) := by
  constructor
  · rw [Scene.add, h.allocated, List.length_append, List.length_singleton]
  · rw [Scene.add, h.allocated, numbered_concat]
    exact h.placed.append_right _

theorem addAll (h : s.Holds es) (fs : List Element) : (s.addAll fs).Holds (es ++ fs) := by
  induction fs generalizing s es with
  | nil =>
    rw [List.append_nil]
    exact h
  | cons f fs ih =>
    rw [List.append_cons]
    exact ih (h.add f)

theorem clear (h : s.Holds es) : s.clear.Holds es := ⟨h.allocated, List.nil_sublist _⟩

theorem remove (h : s.Holds es) (i : ElementId) : (s.remove i).Holds es :=
  ⟨h.allocated, List.filter_sublist.trans h.placed⟩

theorem replaceAll (h : s.Holds es) (fs : List Element) : (s.replaceAll fs).Holds (es ++ fs) :=
  h.clear.addAll fs

theorem applyTo (h : s.Holds es) (d : Document) : (d.applyTo s).Holds (es ++ d.elements) := by
  rw [Document.applyTo]
  split
  · next hd =>
    rw [List.isEmpty_iff.1 hd, List.append_nil]
    exact h
  · exact h.replaceAll d.elements

theorem after (h : s.Holds es) (o : Operation) : (s.after o).Holds (es ++ o.added) := by
  cases o with
  | add e => exact h.add e
  | remove i =>
    rw [Operation.added, List.append_nil]
    exact h.remove i
  | clear =>
    rw [Operation.added, List.append_nil]
    exact h.clear
  | replaceAll fs => exact h.replaceAll fs
  | apply d => exact h.applyTo d

end Holds

theorem holds_run (os : List Operation) : (run os).Holds (os.flatMap Operation.added) := by
  induction os using List.reverseRecOn with
  | nil => exact .empty
  | append_singleton os o ih =>
    rw [run_concat, List.flatMap_append, List.flatMap_singleton]
    exact ih.after o

/-! ### New numbers -/

theorem lt_of_mem_addAll {n : Nat} (hs : ∀ p ∈ s.placed, n < p.id.number) (hn : n ≤ s.allocated)
    (es : List Element) : ∀ p ∈ (s.addAll es).placed, n < p.id.number := by
  induction es generalizing s with
  | nil => exact hs
  | cons e es ih =>
    apply ih
    · intro p hp
      rcases List.mem_append.1 hp with hp | hp
      · exact hs p hp
      · rw [List.mem_singleton.1 hp]
        exact Nat.lt_succ_of_le hn
    · exact Nat.le_succ_of_le hn

/-- What takes the place of the elements gets none of the numbers that were given out. -/
theorem lt_of_mem_replaceAll (s : Scene) (es : List Element) :
    ∀ p ∈ (s.replaceAll es).placed, s.allocated < p.id.number :=
  lt_of_mem_addAll (s := s.clear) (List.forall_mem_nil _) (Nat.le_refl _) es

/-! ### What a number names -/

theorem mem_of_get? {i : ElementId} (h : s.get? i = some p) : p ∈ s.placed ∧ p.id = i := by
  have hi := List.find?_some (p := fun q : Placed => decide (q.id = i)) h
  exact ⟨List.mem_of_find?_eq_some h, of_decide_eq_true hi⟩

theorem remove_eq_self {i : ElementId} (h : s.get? i = none) : s.remove i = s := by
  have hf : s.placed.filter (·.id ≠ i) = s.placed := by
    apply List.filter_eq_self.2
    intro p hp
    simpa using List.find?_eq_none.1 h p hp
  rw [remove, hf]

/-- Where numbers name one element each, only the one that a number names is removed with it. -/
theorem filter_id_ne {before after : List Placed}
    (h : ((before ++ p :: after).map (·.id)).Nodup) :
    (before ++ p :: after).filter (·.id ≠ p.id) = before ++ after := by
  rw [List.map_append, List.map_cons, List.nodup_middle, List.nodup_cons, ← List.map_append] at h
  have hkeep : (before ++ after).filter (·.id ≠ p.id) = before ++ after :=
    List.filter_eq_self.2 fun q hq => decide_eq_true fun he => h.1 (he ▸ List.mem_map_of_mem hq)
  rw [List.filter_append, List.filter_cons_of_neg (by simp), ← List.filter_append, hkeep]

/-- How a scene numbers its elements, now and later on, given all those that were ever added. -/
structure Identifies (given : List Placed) (now later : Scene) : Prop where
  ascending : now.placed.Pairwise (·.id.number < ·.id.number)
  keyed : ∀ i p, now.get? i = some p ↔ p ∈ now.placed ∧ p.id = i
  bounded : ∀ p ∈ now.placed, p.id.number ≤ given.length
  inserted : now.placed.Sublist given
  removed : ∀ before p rest, now.placed = before ++ p :: rest →
    (now.remove p.id).placed = before ++ rest
  named : ∀ p ∈ given, ∀ q ∈ later.placed, q.id = p.id → q = p

namespace Holds

theorem get?_eq_some_iff (h : s.Holds es) (i : ElementId) (p : Placed) :
    s.get? i = some p ↔ p ∈ s.placed ∧ p.id = i := by
  refine ⟨mem_of_get?, fun ⟨hp, hi⟩ => ?_⟩
  cases hg : s.get? i with
  | none => exact absurd (decide_eq_true hi) (List.find?_eq_none.1 hg p hp)
  | some q =>
    obtain ⟨hq, hj⟩ := mem_of_get? hg
    have he := eq_of_mem_numbered (h.placed.subset hq) (h.placed.subset hp) (hj.trans hi.symm)
    rw [he]

theorem nodup_ids (h : s.Holds es) : (s.placed.map (·.id)).Nodup := by
  apply List.Pairwise.map (R := fun p q : Placed => p.id.number < q.id.number)
  · exact fun p q hlt he => Nat.ne_of_lt hlt (congrArg ElementId.number he)
  · exact (pairwise_numbered es).sublist h.placed

theorem placed_remove (h : s.Holds es) {before rest : List Placed}
    (hs : s.placed = before ++ p :: rest) : (s.remove p.id).placed = before ++ rest := by
  rw [Scene.remove, hs]
  exact filter_id_ne (hs ▸ h.nodup_ids)

theorem identifies (hs : s.Holds es) (ht : t.Holds (es ++ fs)) :
    Identifies (numbered es) s t where
  ascending := (pairwise_numbered es).sublist hs.placed
  keyed := hs.get?_eq_some_iff
  bounded p hp := by
    rw [length_numbered]
    exact number_le_of_mem (hs.placed.subset hp)
  inserted := hs.placed
  removed _ _ _ := hs.placed_remove
  named p hp q hq := by
    apply eq_of_mem_numbered (ht.placed.subset hq)
    exact (sublist_numbered_append es fs).subset hp

end Holds

theorem nodup_ids_run (os : List Operation) : ((run os).placed.map (·.id)).Nodup :=
  (holds_run os).nodup_ids

theorem identifies_run (os ps : List Operation) :
    Identifies (given os) (run os) (run (os ++ ps)) := by
  have ht := holds_run (os ++ ps)
  rw [List.flatMap_append] at ht
  exact (holds_run os).identifies ht

end Sketch.Scene
