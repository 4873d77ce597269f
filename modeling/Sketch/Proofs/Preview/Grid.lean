import Sketch.Proofs.Preview.Endless

/-!
The lines of a grid in a preview. There is one for each whole coordinate that is visible, unless they
are too many, as long as steps of one lead from each of these coordinates to the next.
-/

namespace Sketch.Preview

open Number

variable {s : ViewportSettings} {v : Viewport} {p q : Point} {e : Extent} {ls : List Primitive}

namespace Extent

/-- The line across the extent at some `x`. -/
def vertical (e : Extent) (v : Viewport) (x : Float) : Primitive :=
  .gridLine (v.toPixel ⟨x, e.bottom⟩) (v.toPixel ⟨x, e.top⟩)

/-- The line across the extent at some `y`. -/
def horizontal (e : Extent) (v : Viewport) (y : Float) : Primitive :=
  .gridLine (v.toPixel ⟨e.left, y⟩) (v.toPixel ⟨e.right, y⟩)

/-- How many whole coordinates there are. -/
def size (e : Extent) : ℕ := e.columns.length + e.rows.length

/-- One line for each whole coordinate, the vertical ones first. -/
def IsRuled (e : Extent) (v : Viewport) (ls : List Primitive) : Prop :=
  ∃ xs ys, List.Forall₂ Stands xs e.columns ∧ List.Forall₂ Stands ys e.rows ∧
    ls = xs.map (e.vertical v) ++ ys.map (e.horizontal v)

/-- No line at all where they would be too many, and otherwise one for each whole coordinate. -/
def IsDrawn (e : Extent) (v : Viewport) (ls : List Primitive) : Prop :=
  if maxGridLines < e.size then ls = [] else e.IsRuled v ls

theorem IsRuled.length_eq (h : e.IsRuled v ls) : ls.length = e.size := by
  obtain ⟨xs, ys, hxs, hys, rfl⟩ := h
  rw [List.length_append, List.length_map, List.length_map, hxs.length_eq, hys.length_eq, size]

theorem IsDrawn.length_le (h : e.IsDrawn v ls) : ls.length ≤ maxGridLines := by
  unfold IsDrawn at h
  split at h
  · rw [h]
    exact Nat.zero_le _
  · next hsize =>
    rw [h.length_eq]
    exact Nat.le_of_not_lt hsize

theorem not_isDrawn (h : ¬maxGridLines < e.size) (hl : ls.length ≠ e.size) : ¬e.IsDrawn v ls := by
  rw [IsDrawn, if_neg h]
  exact fun hruled => hl hruled.length_eq

end Extent

theorem gridLines?_of_not_proper (h : ¬(Extent.visible v p q).IsProper) :
    gridLines? v p q = some [] := if_pos (.inl h)

theorem gridLines?_of_lt (he : (Extent.visible v p q).IsFinite)
    (h : maxGridLines < (Extent.visible v p q).size) : gridLines? v p q = some [] := by
  by_cases hp : (Extent.visible v p q).IsProper
  · exact if_pos (.inr ((lt_lineCount_iff he hp).2 h))
  · exact gridLines?_of_not_proper hp

theorem gridLines?_of_le (he : (Extent.visible v p q).IsFinite)
    (hp : (Extent.visible v p q).IsProper) (h : ¬maxGridLines < (Extent.visible v p q).size) :
    gridLines? v p q =
      let e := Extent.visible v p q
      (unitSteps? e.right maxGridLines (ceil e.left)).bind fun xs =>
        (unitSteps? e.top maxGridLines (ceil e.bottom)).bind fun ys =>
          some (xs.map (e.vertical v) ++ ys.map (e.horizontal v)) := by
  refine (if_neg ?_).trans rfl
  rintro (hn | hl)
  · exact hn hp
  · exact h ((lt_lineCount_iff he hp).1 hl)

theorem exists_gridLines?_of_walkable (he : (Extent.visible v p q).IsFinite)
    (h : ¬maxGridLines < (Extent.visible v p q).size)
    (hc : Walkable (Extent.visible v p q).columns) (hr : Walkable (Extent.visible v p q).rows) :
    ∃ ls, gridLines? v p q = some ls ∧ (Extent.visible v p q).IsRuled v ls := by
  by_cases hp : (Extent.visible v p q).IsProper
  · obtain ⟨hcl, hrl⟩ : (Extent.visible v p q).columns.length ≤ maxGridLines ∧
        (Extent.visible v p q).rows.length ≤ maxGridLines := by
      rw [Extent.size] at h
      omega
    rw [Extent.columns, if_pos hp] at hc hcl
    rw [Extent.rows, if_pos hp] at hr hrl
    obtain ⟨xs, hxs, hx⟩ := exists_unitSteps?_of_walkable (stands_ceil he.left) he.right hc hcl
    obtain ⟨ys, hys, hy⟩ := exists_unitSteps?_of_walkable (stands_ceil he.bottom) he.top hr hrl
    have hls := gridLines?_of_le he hp h
    dsimp only at hls
    rw [hxs, hys] at hls
    unfold Extent.IsRuled
    rw [Extent.columns, Extent.rows, if_pos hp, if_pos hp]
    exact ⟨_, hls, xs, ys, hx, hy, rfl⟩
  · rw [gridLines?_of_not_proper hp]
    unfold Extent.IsRuled
    rw [Extent.columns, Extent.rows, if_neg hp, if_neg hp]
    exact ⟨[], rfl, [], [], .nil, .nil, rfl⟩

/-- As many lines as there are whole coordinates come from steps that meet them all. -/
theorem walkable_of_length_eq (he : (Extent.visible v p q).IsFinite)
    (hp : (Extent.visible v p q).IsProper) (h : ¬maxGridLines < (Extent.visible v p q).size)
    (hls : gridLines? v p q = some ls) (hl : ls.length = (Extent.visible v p q).size) :
    Walkable (Extent.visible v p q).columns ∧ Walkable (Extent.visible v p q).rows := by
  rw [gridLines?_of_le he hp h] at hls
  obtain ⟨xs, hxs, hls⟩ := Option.bind_eq_some_iff.1 hls
  obtain ⟨ys, hys, hls⟩ := Option.bind_eq_some_iff.1 hls
  obtain rfl := Option.some.inj hls
  obtain ⟨hxl, hx⟩ := length_unitSteps? (stands_ceil he.left) he.right hxs
  obtain ⟨hyl, hy⟩ := length_unitSteps? (stands_ceil he.bottom) he.top hys
  rw [Extent.size, List.length_append, List.length_map, List.length_map] at hl
  rw [Extent.columns, Extent.rows, if_pos hp, if_pos hp] at hl ⊢
  rw [Extent.wholes, Extent.wholes] at hl ⊢
  exact ⟨hx (by omega), hy (by omega)⟩

/-- Past `2 ^ 53` a grid whose first column is a multiple of four is never done. -/
theorem gridLines?_eq_none (he : (Extent.visible v p q).IsFinite)
    (hp : (Extent.visible v p q).IsProper) (h : ¬maxGridLines < (Extent.visible v p q).size) {n : ℤ}
    (hn : n ∈ (Extent.visible v p q).columns.head?) (hlarge : ¬(-2 ^ 53 ≤ n ∧ n < 2 ^ 53))
    (hmod : n % 4 = 0) : gridLines? v p q = none := by
  rw [Extent.columns, if_pos hp, Extent.wholes] at hn
  have hmem := Int.mem_range_iff.1 (List.mem_of_mem_head? hn)
  rw [range_eq_cons (by omega), List.head?_cons, Option.mem_some_iff] at hn
  have hx := stands_ceil he.left
  rw [hn] at hx
  have hle := (hx.le_iff he.right).2 (by omega)
  rw [gridLines?_of_le he hp h]
  dsimp only
  rw [unitSteps?_eq_none hx hle he.right hlarge hmod, Option.bind_none]

/-- A grid is drawn, with one line for each whole coordinate that is visible or with none if these
are too many, exactly if there are too many or steps of one lead through all of them. Where there is
no result, the steps never end. -/
theorem grid_drawn_iff (hv : s.toViewport = .ok v) (hp : p.isFinite = true) (hq : q.isFinite = true)
    (style : Style) :
    let e := Extent.visible v p q
    ((∃ ls, ofElement? v ⟨.shape (.grid p q), style⟩ = some ls ∧ ls.length ≤ maxGridLines ∧
          e.IsDrawn v ls) ↔
        maxGridLines < e.size ∨ Walkable e.columns ∧ Walkable e.rows) ∧
      (ofElement? v ⟨.shape (.grid p q), style⟩ = none →
        (∀ limit, unitSteps? e.right limit (ceil e.left) = none) ∨
          ∀ limit, unitSteps? e.top limit (ceil e.bottom) = none) := by
  intro e
  have he := Extent.isFinite_visible hv hp hq
  refine ⟨⟨?_, ?_⟩, fun h => (gridLines?_eq_none_iff.1 h).steps⟩
  · rintro ⟨ls, hls, -, hdrawn⟩
    refine or_iff_not_imp_left.2 fun hsize => ?_
    have hruled : e.IsRuled v ls := by rwa [Extent.IsDrawn, if_neg hsize] at hdrawn
    by_cases hproper : e.IsProper
    · exact walkable_of_length_eq he hproper hsize hls hruled.length_eq
    · rw [Extent.columns, Extent.rows, if_neg hproper, if_neg hproper]
      exact ⟨.inl (by simp), .inl (by simp)⟩
  · intro h
    by_cases hsize : maxGridLines < e.size
    · have hdrawn : e.IsDrawn v [] := by rw [Extent.IsDrawn, if_pos hsize]
      exact ⟨[], gridLines?_of_lt he hsize, Nat.zero_le _, hdrawn⟩
    · obtain ⟨hc, hr⟩ := h.resolve_left hsize
      obtain ⟨ls, hls, hruled⟩ := exists_gridLines?_of_walkable he hsize hc hr
      have hdrawn : e.IsDrawn v ls := by rwa [Extent.IsDrawn, if_neg hsize]
      exact ⟨ls, hls, hdrawn.length_le, hdrawn⟩

theorem grid_drawn_standard :
    ({} : ViewportSettings).toViewport = .ok .standard ∧ (Point.mk 0 0).isFinite = true ∧
      (Point.mk 2 1).isFinite = true ∧ ∃ ls,
        ofElement? .standard ⟨.shape (.grid ⟨0, 0⟩ ⟨2, 1⟩), {}⟩ = some ls ∧
          ls.length ≤ maxGridLines ∧ (Extent.visible .standard ⟨0, 0⟩ ⟨2, 1⟩).IsDrawn .standard ls := by
  have hv : ({} : ViewportSettings).toViewport = .ok .standard := rfl
  have hc : (Extent.visible .standard ⟨0, 0⟩ ⟨2, 1⟩).columns = [0, 1, 2] := by decide +kernel
  have hr : (Extent.visible .standard ⟨0, 0⟩ ⟨2, 1⟩).rows = [0, 1] := by decide +kernel
  refine ⟨hv, rfl, rfl, (grid_drawn_iff hv rfl rfl {}).1.2 (.inr ⟨?_, ?_⟩)⟩
  · rw [hc]
    exact .inl (by decide)
  · rw [hr]
    exact .inl (by decide)

/-- A canvas that reaches beyond `2 ^ 53`. -/
def vast : Viewport := .centered Viewport.defaultSize 1e-14

/-- The points of the canvas from which a step of one leads nowhere or too far. -/
def stuck : Point := ⟨9007199254740992, 0⟩

def skipping : Point := ⟨-9007199254740994, 0⟩

def skipped : Point := ⟨-9007199254740992, 0⟩

theorem not_isDrawn_skipping {ls : List Primitive} (h : gridLines? vast skipping skipped = some ls) :
    ¬(Extent.visible vast skipping skipped).IsDrawn vast ls := by
  have hsize : (Extent.visible vast skipping skipped).size = 4 := by decide +kernel
  have hl : (gridLines? vast skipping skipped).map List.length = some 3 := by decide +kernel
  rw [h, Option.map_some, Option.some.injEq] at hl
  apply Extent.not_isDrawn
  · rw [hsize]
    decide
  · rw [hl, hsize]
    decide

theorem gridLines?_stuck : gridLines? vast stuck stuck = none := by
  have hv : ViewportSettings.toViewport { scale := 1e-14 } = .ok vast := rfl
  have he := Extent.isFinite_visible (p := stuck) (q := stuck) hv rfl rfl
  have hsize : (Extent.visible vast stuck stuck).size = 2 := by decide +kernel
  have hc : (Extent.visible vast stuck stuck).columns.head? = some (2 ^ 53) := by decide +kernel
  apply gridLines?_eq_none he (by decide +kernel)
  · rw [hsize]
    decide
  · exact hc
  · decide
  · decide

/-- On a vast canvas one grid misses one of its four lines, and another is never done. -/
theorem not_drawn_vast :
    ViewportSettings.toViewport { scale := 1e-14 } = .ok vast ∧
      (∃ ls, ofElement? vast ⟨.shape (.grid skipping skipped), {}⟩ = some ls ∧
        ¬(Extent.visible vast skipping skipped).IsDrawn vast ls) ∧
      ofElement? vast ⟨.shape (.grid stuck stuck), {}⟩ = none := by
  have hsome : (gridLines? vast skipping skipped).isSome = true := by decide +kernel
  obtain ⟨ls, hls⟩ := Option.isSome_iff_exists.1 hsome
  exact ⟨rfl, ⟨ls, hls, not_isDrawn_skipping hls⟩, gridLines?_stuck⟩

end Sketch.Preview
