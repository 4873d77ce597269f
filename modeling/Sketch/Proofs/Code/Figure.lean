import Sketch.Proofs.Code.Cursor
import Sketch.Proofs.Code.LineWidth
import Sketch.Proofs.Code.Recognized

/-!
The numbers of a recognized figure. All that are read are finite, and all but the extent of a rectangle
are just read. Between two corners the extent is their difference, and that may be too large.
-/

namespace Sketch

open Number

/-- All numbers of a figure are finite but for the extent of a rectangle, which may be anything. -/
def Figure.IsPlaced : Figure → Prop
  | .shape (.rectangle origin _ _) => origin.IsFinite
  | f => f.IsFinite

theorem Figure.IsFinite.isPlaced {f : Figure} (h : f.IsFinite) : f.IsPlaced := by
  cases f with
  | shape s =>
    cases s with
    | rectangle origin width height => exact h.1
    | circle center radius => exact h
    | line start stop => exact h
    | grid corner opposite => exact h
  | label l => exact h
  | plot p => exact h

def Domain.IsFinite (d : Domain) : Prop := d.min.isFinite = true ∧ d.max.isFinite = true

/-! ### Options -/

namespace Setting

variable {entry value : List Char} {d : Domain}

theorem isFinite_domain? (h : domain? value = some d) : d.IsFinite := by
  obtain ⟨p, -, h⟩ := Option.bind_eq_some_iff.1 h
  obtain ⟨low, hlow, h⟩ := Option.bind_eq_some_iff.1 h
  obtain ⟨high, hhigh, h⟩ := Option.bind_eq_some_iff.1 h
  cases h
  exact ⟨isFinite_of_readFinite? hlow, isFinite_of_readFinite? hhigh⟩

theorem isFinite_of_ofEntry? (h : ofEntry? entry = some (.domain d)) : d.IsFinite := by
  unfold ofEntry? at h
  split at h
  · unfold ofKey? at h
    split at h
    all_goals try cases h
    all_goals
      obtain ⟨x, hx, hs⟩ := Option.map_eq_some_iff.1 h
      cases hs
    exact isFinite_domain? hx
  · unfold ofFlag? at h
    split at h
    all_goals cases h

end Setting

namespace Options

/-- The domain is finite if there is one. -/
def IsBounded (o : Options) : Prop := ∀ d, o.domain = some d → d.IsFinite

theorem IsBounded.empty : IsBounded {} := by
  intro d h
  contradiction

theorem IsBounded.set {o : Options} (ho : o.IsBounded) {s : Setting}
    (hs : ∀ d, s = .domain d → d.IsFinite) : (o.set s).IsBounded := by
  intro d hd
  cases s with
  | domain d' =>
    cases hd
    exact hs d rfl
  | _ => exact ho d hd

theorem isBounded_ofText (raw : List Char) : (ofText raw).IsBounded := by
  rw [ofText_eq]
  induction entries raw using List.reverseRecOn with
  | nil => exact .empty
  | append_singleton entries entry ih =>
    rw [ofEntries_concat]
    cases hs : Setting.ofEntry? entry with
    | none => exact ih
    | some s => exact ih.set fun d hd => Setting.isFinite_of_ofEntry? (hd ▸ hs)

theorem isFinite_sampling {o : Options} (ho : o.IsBounded) {axis : Axis} (ha : axis.IsFinite) :
    (o.sampling axis).IsFinite := by
  cases hd : o.domain with
  | none => exact ⟨by simpa [sampling, hd] using ha.min, by simpa [sampling, hd] using ha.max⟩
  | some d =>
    obtain ⟨hmin, hmax⟩ := ho d hd
    exact ⟨by simpa [sampling, hd] using hmin, by simpa [sampling, hd] using hmax⟩

end Options

/-! ### Numbers that are read -/

namespace Command

variable {line : List Char} {axis : Axis} {e : Element}

theorem gives_number : Gives number (·.isFinite = true) := by
  intro c x c' h
  rw [number_apply] at h
  dsimp only at h
  split at h
  · contradiction
  · split at h
    · next y hy =>
      cases h
      exact isFinite_of_readFinite? hy
    · contradiction

theorem gives_point : Gives point Point.IsFinite :=
  .bind fun _ => .bind fun _ => gives_number.bind_of fun _ hx => .bind fun _ =>
    gives_number.bind_of fun _ hy => .bind fun _ => .bind fun _ => .pure ⟨hx, hy⟩

theorem gives_options : Gives options Options.IsBounded := by
  intro c o c' h
  unfold options at h
  split at h
  · split at h
    · cases h
      exact Options.isBounded_ofText _
    · cases h
      exact .empty
  · cases h
    exact .empty

theorem gives_finite_circle : Gives circle (·.figure.IsFinite) := by
  refine .bind fun _ => gives_point.bind_of fun _ hp => .bind fun _ => .bind fun _ => ?_
  refine .bind fun _ => gives_number.bind_of fun _ hx => .bind fun _ => .bind fun _ => ?_
  exact .bind fun _ => .bind fun _ => .bind fun _ => .pure ⟨hp, hx⟩

theorem gives_finite_line : Gives Command.line (·.figure.IsFinite) :=
  .bind fun _ => gives_point.bind_of fun _ hp => .bind fun _ => gives_point.bind_of fun _ hq =>
    .bind fun _ => .pure ⟨hp, hq⟩

theorem gives_finite_grid : Gives grid (·.figure.IsFinite) :=
  .bind fun _ => gives_point.bind_of fun _ hp => .bind fun _ => gives_point.bind_of fun _ hq =>
    .bind fun _ => .pure ⟨hp, hq⟩

theorem gives_finite_node : Gives node (·.figure.IsFinite) :=
  .bind fun _ => .bind fun _ => gives_point.bind_of fun _ hp => .bind fun _ => .bind fun _ =>
    .bind fun _ => .pure hp

theorem gives_finite_addplot (ha : axis.IsFinite) : Gives (addplot axis) (·.figure.IsFinite) :=
  .bind fun _ => .bind fun _ => .bind fun _ => gives_options.bind_of fun _ ho => .bind fun _ =>
    .bind fun _ => .bind fun _ => .pure (Options.isFinite_sampling ho ha)

/-! ### The extent of a rectangle -/

/-- The parts of a rectangle's command. -/
structure Corners where
  options : Options
  origin : Point
  relative : Bool
  corner : Point

def corners : Reader Corners := do
  let o ← head "\\draw"
  let origin ← point
  keyword "rectangle"
  let relative ← skips "++"
  if relative then spacing
  let corner ← point
  finish
  return ⟨o, origin, relative, corner⟩

namespace Corners

def extent (k : Corners) : Point := if k.relative then k.corner else k.corner.sub k.origin

/-- A difference between the corners is too large for a float. -/
def IsTooFar (k : Corners) : Prop :=
  k.relative = false ∧ (overflowThreshold ≤ |value k.corner.x - value k.origin.x| ∨
    overflowThreshold ≤ |value k.corner.y - value k.origin.y|)

structure IsFinite (k : Corners) : Prop where
  origin : k.origin.IsFinite
  corner : k.corner.IsFinite

theorem IsFinite.extent_iff {k : Corners} (h : k.IsFinite) : k.extent.IsFinite ↔ ¬k.IsTooFar := by
  have hx := (rounds_sub h.corner.x h.origin.x).isFinite_iff
  have hy := (rounds_sub h.corner.y h.origin.y).isFinite_iff
  unfold extent IsTooFar
  cases k.relative with
  | true => exact iff_of_true h.corner fun hfar => Bool.false_ne_true hfar.1.symm
  | false =>
    rw [← not_le] at hx hy
    constructor
    · rintro hf ⟨-, hfar | hfar⟩
      · exact hx.1 hf.x hfar
      · exact hy.1 hf.y hfar
    · intro hnear
      exact ⟨hx.2 fun hfar => hnear ⟨rfl, .inl hfar⟩, hy.2 fun hfar => hnear ⟨rfl, .inr hfar⟩⟩

end Corners

theorem gives_finite_corners : Gives corners Corners.IsFinite := by
  refine .bind fun _ => gives_point.bind_of fun _ hp => .bind fun _ => .bind fun relative => ?_
  cases relative with
  | true => exact .bind fun _ => gives_point.bind_of fun _ hq => .bind fun _ => .pure ⟨hp, hq⟩
  | false => exact gives_point.bind_of fun _ hq => .bind fun _ => .pure ⟨hp, hq⟩

def Corners.element (k : Corners) : Element :=
  drawn k.options (.rectangle k.origin k.extent.x k.extent.y)

theorem rectangle_eq : rectangle = do
    let k ← corners
    return k.element := by
  simp only [rectangle, corners, bind_assoc]
  refine bind_congr fun o => bind_congr fun origin => bind_congr fun _ => ?_
  refine bind_congr fun relative => ?_
  cases relative with
  | true => simp [Corners.element, Corners.extent]
  | false => simp [Corners.element, Corners.extent]

/-- The line is a rectangle between two corners that are too far from each other. -/
def SpansTooFar (line : List Char) : Prop := ∃ k, readLine corners line = .ok k ∧ k.IsTooFar

/-- What is read as a circle has another keyword. -/
theorem readLine_circle_ne {k : Corners} (h : readLine corners line = .ok k) :
    readLine circle line ≠ .ok e := by
  intro he
  obtain ⟨_, hk⟩ := exists_of_readLine_eq h
  obtain ⟨_, hc⟩ := exists_of_readLine_eq he
  obtain ⟨o, c₁, hhead, hk⟩ := exists_of_bind_eq hk
  obtain ⟨_, _, hhead', hc⟩ := exists_of_bind_eq hc
  cases hhead.symm.trans hhead'
  obtain ⟨p, c₂, hpoint, hk⟩ := exists_of_bind_eq hk
  obtain ⟨_, _, hpoint', hc⟩ := exists_of_bind_eq hc
  cases hpoint.symm.trans hpoint'
  obtain ⟨_, _, hword, -⟩ := exists_of_bind_eq hk
  obtain ⟨_, _, hword', -⟩ := exists_of_bind_eq hc
  obtain ⟨_, hrest⟩ := append_of_keyword_eq hword
  obtain ⟨_, hrest'⟩ := append_of_keyword_eq hword'
  cases List.head_eq_of_cons_eq (hrest.symm.trans hrest')

theorem ofLine_of_corners {k : Corners} (h : readLine corners line = .ok k) (axis : Axis) :
    ofLine axis line = .ok k.element := by
  have hr : readLine rectangle line = .ok k.element := by
    obtain ⟨d, hd⟩ := exists_of_readLine_eq h
    rw [rectangle_eq]
    exact readLine_of_eq (bind_apply hd)
  cases hc : readLine circle line with
  | ok e => exact absurd hc (readLine_circle_ne h)
  | error m =>
    change firstOf line (circle :: rectangle :: _) = _
    simp only [firstOf, hc, hr]
    rfl

/-- Only rectangles have numbers that are computed from those that are read. -/
theorem isFinite_or_exists_corners (ha : axis.IsFinite) (h : ofLine axis line = .ok e) :
    e.figure.IsFinite ∨ ∃ k, readLine corners line = .ok k ∧ k.IsFinite ∧ e = k.element := by
  obtain ⟨r, hr, hline⟩ := exists_mem_of_firstOf_eq h
  obtain ⟨d, hd⟩ := exists_of_readLine_eq hline
  simp only [table, List.map_cons, List.map_nil, List.mem_cons, List.not_mem_nil, or_false] at hr
  rcases hr with rfl | rfl | rfl | rfl | rfl | rfl
  · exact .inl (gives_finite_circle _ _ _ hd)
  · rw [rectangle_eq] at hd
    obtain ⟨k, c, hk, hd⟩ := exists_of_bind_eq hd
    exact .inr ⟨k, readLine_of_eq hk, gives_finite_corners _ _ _ hk, (eq_of_pure_eq hd).1⟩
  · exact .inl (gives_finite_line _ _ _ hd)
  · exact .inl (gives_finite_grid _ _ _ hd)
  · exact .inl (gives_finite_node _ _ _ hd)
  · exact .inl (gives_finite_addplot ha _ _ _ hd)

theorem isPlaced_figure (ha : axis.IsFinite) (h : ofLine axis line = .ok e) :
    e.figure.IsPlaced := by
  rcases isFinite_or_exists_corners ha h with hf | ⟨k, -, hk, rfl⟩
  · exact hf.isPlaced
  · exact hk.origin

theorem isFinite_figure_iff (ha : axis.IsFinite) (h : ofLine axis line = .ok e) :
    e.figure.IsFinite ↔ ¬SpansTooFar line := by
  constructor
  · rintro hf ⟨k, hk, hfar⟩
    obtain ⟨d, hd⟩ := exists_of_readLine_eq hk
    cases h.symm.trans (ofLine_of_corners hk axis)
    exact (gives_finite_corners _ _ _ hd).extent_iff.1 hf.2 hfar
  · intro hnear
    rcases isFinite_or_exists_corners ha h with hf | ⟨k, hk, hkf, rfl⟩
    · exact hf
    · exact ⟨hkf.origin, hkf.extent_iff.2 fun hfar => hnear ⟨k, hk, hfar⟩⟩

end Command

end Sketch
