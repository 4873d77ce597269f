import Sketch.Expr.Curve
import Sketch.Proofs.Number.Bits

/-!
The curve of a formula. Its runs are the longest stretches of samples that are kept, in order and with
a gap between any two. They are what a loop over the samples collects that closes a run at each gap,
and none of the bounds of that loop cross.
-/

namespace Sketch

theorem Number.beq_comm (x y : Float) : (x == y) = (y == x) := by
  have h (x y : Float) (h : (x == y) = true) : (y == x) = true := by
    rw [beq_iff] at h ⊢
    exact ⟨by rw [← isNaN_unsigned, ← h.2, isNaN_unsigned, h.1], h.2.symm⟩
  exact Bool.eq_iff_iff.2 ⟨h x y, h y x⟩

namespace Curve

/-! ### Runs between gaps -/

/-- Samples are cut into runs: there are gaps before a run or not, and behind it there is nothing or
a gap. -/
inductive Runs : List (Option Point) → Curve → Prop
  | gaps (n) : Runs (List.replicate n none) []
  | run (n) {run rest later} : run ≠ [] → (rest = [] ∨ ∃ more, rest = none :: more) → Runs rest later →
      Runs (List.replicate n none ++ (run.map some ++ rest)) (run :: later)

variable {samples rest : List (Option Point)} {run : List Point} {c later : Curve}

theorem Runs.cons_none (h : Runs samples c) : Runs (none :: samples) c := by
  cases h with
  | gaps n => exact .gaps (n + 1)
  | run n hne hrest h => exact .run (n + 1) hne hrest h

theorem ofSamples_cons_none (samples : List (Option Point)) : ofSamples (none :: samples) = ofSamples samples :=
  rfl

theorem ofSamples_replicate_append (n : Nat) (samples : List (Option Point)) :
    ofSamples (List.replicate n none ++ samples) = ofSamples samples := by
  induction n with
  | zero => rfl
  | succ n ih => rw [List.replicate_succ, List.cons_append, ofSamples_cons_none, ih]

/-- At a gap no run is open, and one that stands before the gap ends there. -/
theorem ofSamples_run (hne : run ≠ []) (h : rest = [] ∨ ∃ more, rest = none :: more) :
    ofSamples (run.map some ++ rest) = run :: ofSamples rest := by
  have hgap : rest.foldr addSample ([], []) = ([], ofSamples rest) := by
    rcases h with rfl | ⟨more, rfl⟩
    · rfl
    · rfl
  have hrun (s : List Point × Curve) : (run.map some).foldr addSample s = (run ++ s.1, s.2) := by
    clear hne
    induction run with
    | nil => rfl
    | cons p run ih => rw [List.map_cons, List.foldr_cons, ih, addSample, List.cons_append]
  rw [ofSamples, List.foldr_append, hgap, hrun]
  dsimp only
  rw [List.append_nil, addRun, if_neg (by simpa using hne)]

theorem ofSamples_of_runs (h : Runs samples c) : ofSamples samples = c := by
  induction h with
  | gaps n =>
    rw [← List.append_nil (List.replicate n none), ofSamples_replicate_append]
    rfl
  | run n hne hrest _ ih => rw [ofSamples_replicate_append, ofSamples_run hne hrest, ih]

theorem Runs.addRun (h : Runs rest later) (hrest : rest = [] ∨ ∃ more, rest = none :: more)
    (run : List Point) : Runs (run.map some ++ rest) (addRun run later) := by
  cases run with
  | nil => exact h
  | cons p run => exact .run 0 (List.cons_ne_nil p run) hrest h

/-- The run that is open is what the samples start with, and the others are the runs behind it. -/
theorem exists_rest (samples : List (Option Point)) : ∃ rest,
    samples = (samples.foldr addSample ([], [])).1.map some ++ rest ∧
      (rest = [] ∨ ∃ more, rest = none :: more) ∧ Runs rest (samples.foldr addSample ([], [])).2 := by
  induction samples with
  | nil => exact ⟨[], rfl, .inl rfl, .gaps 0⟩
  | cons sample samples ih =>
    obtain ⟨rest, hs, hrest, h⟩ := ih
    cases sample with
    | none =>
      have hruns := h.addRun hrest (samples.foldr addSample ([], [])).1
      rw [← hs] at hruns
      exact ⟨none :: samples, rfl, .inr ⟨samples, rfl⟩, hruns.cons_none⟩
    | some p => exact ⟨rest, congrArg (some p :: ·) hs, hrest, h⟩

/-- Samples have one cut into runs. -/
theorem runs_iff : Runs samples c ↔ ofSamples samples = c := by
  refine ⟨ofSamples_of_runs, ?_⟩
  rintro rfl
  obtain ⟨rest, hs, hrest, h⟩ := exists_rest samples
  have hruns := h.addRun hrest (samples.foldr addSample ([], [])).1
  rwa [← hs] at hruns

namespace Runs

theorem ne_nil (h : Runs samples c) : ∀ run ∈ c, run ≠ [] := by
  induction h with
  | gaps => exact List.forall_mem_nil _
  | run _ hne _ _ ih => exact List.forall_mem_cons.2 ⟨hne, ih⟩

/-- No sample is lost and none is doubled. -/
theorem flatten_eq (h : Runs samples c) : c.flatten = samples.filterMap id := by
  have hgaps (n : Nat) : (List.replicate n (none : Option Point)).filterMap id = [] := by simp
  induction h with
  | gaps n => rw [hgaps]; rfl
  | @run n run rest later _ _ _ ih =>
    rw [List.flatten_cons, ih, List.filterMap_append, hgaps, List.filterMap_append, List.filterMap_map]
    simp

/-- Two runs, one behind the other, and what is between them. -/
theorem exists_gap (h : Runs samples c) {before after : Curve} {first second : List Point}
    (hc : c = before ++ first :: second :: after) : ∃ front gap back,
      samples = front ++ (first.map some ++ (gap ++ (second.map some ++ back))) ∧
        gap ≠ [] ∧ ∀ sample ∈ gap, sample = none := by
  induction h generalizing before with
  | gaps => cases before <;> contradiction
  | @run n run rest later hne hrest h ih =>
    cases before with
    | nil =>
      obtain ⟨rfl, rfl⟩ := List.cons.inj hc
      cases h with
      | @run m _ back _ hne' _ _ =>
        refine ⟨List.replicate n none, List.replicate m none, back, rfl, ?_, fun sample hs => ?_⟩
        · rintro hm
          rw [hm, List.nil_append] at hrest
          obtain ⟨q, qs, rfl⟩ := List.exists_cons_of_ne_nil hne'
          rcases hrest with hrest | ⟨more, hrest⟩
          · contradiction
          · cases hrest
        · exact (List.mem_replicate.1 hs).2
    | cons b before =>
      obtain ⟨rfl, hlater⟩ := List.cons.inj hc
      obtain ⟨front, gap, back, hs, hg⟩ := ih hlater
      refine ⟨List.replicate n none ++ (run.map some ++ front), gap, back, ?_, hg⟩
      rw [hs, List.append_assoc, List.append_assoc]

end Runs

end Curve

/-! ### The loop -/

/-- A curve on the way: the runs that are closed, and the one to which the next sample is added. -/
structure Trace where
  closed : Curve := []
  current : List Point := []

namespace Trace

def close (t : Trace) : Curve := if t.current.isEmpty then t.closed else t.closed ++ [t.current]

/-- A sample goes to the end of the current run, and a gap closes it, unless it is empty. -/
def step (t : Trace) : Option Point → Trace
  | some p => { t with current := t.current ++ [p] }
  | none => ⟨t.close, []⟩

theorem close_append (t : Trace) (later : Curve) :
    t.close ++ later = t.closed ++ Curve.addRun t.current later := by
  rw [close, Curve.addRun]
  split
  · rfl
  · rw [List.append_assoc, List.singleton_append]

/-- The current run goes on with the points that the samples start with. -/
theorem close_foldl_step (samples : List (Option Point)) (t : Trace) :
    (samples.foldl step t).close = t.closed ++ Curve.addRun (t.current ++
      (samples.foldr Curve.addSample ([], [])).1) (samples.foldr Curve.addSample ([], [])).2 := by
  induction samples generalizing t with
  | nil => rw [List.foldl_nil, List.foldr_nil, List.append_nil, ← close_append, List.append_nil]
  | cons sample samples ih =>
    rw [List.foldl_cons, ih, List.foldr_cons]
    cases sample with
    | some p => rw [step, Curve.addSample, List.append_assoc, List.singleton_append]
    | none => rw [step, Curve.addSample, close_append, List.nil_append, List.append_nil]

theorem close_foldl_step_empty (samples : List (Option Point)) :
    (samples.foldl step {}).close = Curve.ofSamples samples := by
  rw [close_foldl_step]
  rfl

end Trace

/-! ### Bounds that never cross -/

/-- The number between two bounds that is closest to the given one. Bounds that cross have none. -/
def clamp? (lower upper n : UInt32) : Option UInt32 :=
  if lower ≤ upper then some (if n < lower then lower else if upper < n then upper else n) else none

/-- The number before, if there is one. -/
def pred? (n : UInt32) : Option UInt32 := if n = 0 then none else some (n - 1)

theorem clamp?_eq {lower upper : UInt32} (h : lower ≤ upper) (n : UInt32) :
    clamp? lower upper n = some (min (max n lower) upper) := by
  rw [clamp?, if_pos h]
  congr 1
  rw [← UInt32.toNat_inj, UInt32.toNat_min, UInt32.toNat_max]
  rw [UInt32.le_iff_toNat_le] at h
  split
  · next hn =>
    rw [UInt32.lt_iff_toNat_lt] at hn
    omega
  · next hn =>
    rw [UInt32.lt_iff_toNat_lt] at hn
    split
    · next hu =>
      rw [UInt32.lt_iff_toNat_lt] at hu
      omega
    · next hu =>
      rw [UInt32.lt_iff_toNat_lt] at hu
      omega

theorem toNat_pred? {n last : UInt32} (h : pred? n = some last) : last.toNat = n.toNat - 1 := by
  rw [pred?] at h
  split at h
  · contradiction
  · next hn =>
    obtain rfl := Option.some.inj h
    have hpos : 1 ≤ n.toNat := Nat.one_le_iff_ne_zero.2 fun h => hn (UInt32.toNat_inj.1 h)
    exact UInt32.toNat_sub_of_le n 1 (UInt32.le_iff_toNat_le.2 hpos)

namespace Limits

variable (l : Limits)

/-- How many samples are asked for, between two and the limit; the limit is at least two as well. -/
theorem toNat_sampleCount (samples : UInt32) : (l.sampleCount samples).toNat =
    max 2 (min samples.toNat (max 2 (min l.maxSamples.toNat 100000))) := by
  rw [sampleCount, UInt32.toNat_min, UInt32.toNat_max, UInt32.toNat_min, UInt32.toNat_max]
  change min (max _ 2) (min (max _ 2) 100000) = _
  omega

/-- The inner clamp leaves at least two, which is the lower bound of the outer one. -/
theorem clamp?_sampleCount (samples : UInt32) :
    ((clamp? 2 samplesCeiling l.maxSamples).bind fun most => clamp? 2 most samples) =
      some (l.sampleCount samples) := by
  have hmost : (2 : UInt32) ≤ min (max l.maxSamples 2) samplesCeiling := by
    rw [UInt32.le_iff_toNat_le, UInt32.toNat_min, UInt32.toNat_max]
    change 2 ≤ min (max _ 2) 100000
    omega
  rw [clamp?_eq (by decide), Option.bind_some, clamp?_eq hmost, sampleCount]

/-- How many samples are taken in a domain when `samples` of them are asked for. -/
def taken (d : Domain) (samples : UInt32) : Nat :=
  if d.min == d.max then 1 else max 2 (min samples.toNat (max 2 (min l.maxSamples.toNat 100000)))

theorem one_le_taken (d : Domain) (samples : UInt32) : 1 ≤ l.taken d samples := by
  rw [taken]
  split <;> omega

theorem taken_le (d : Domain) (samples : UInt32) : l.taken d samples ≤ 100000 := by
  rw [taken]
  split <;> omega

/-- The same number, from clamps whose bounds must not cross. -/
def taken? (d : Domain) (samples : UInt32) : Option UInt32 :=
  if d.min == d.max then some 1
  else (clamp? 2 samplesCeiling l.maxSamples).bind fun most => clamp? 2 most samples

theorem exists_taken? (d : Domain) (samples : UInt32) :
    ∃ count, l.taken? d samples = some count ∧ count.toNat = l.taken d samples := by
  rw [taken?, taken]
  split
  · exact ⟨1, rfl, rfl⟩
  · exact ⟨_, l.clamp?_sampleCount samples, l.toNat_sampleCount samples⟩

end Limits

/-! ### The points at which samples are taken -/

namespace Domain

theorem isFinite_ordered (d : Domain) : (d.ordered.min.isFinite = true ∧ d.ordered.max.isFinite = true) ↔
    d.min.isFinite = true ∧ d.max.isFinite = true := by
  rw [ordered]
  split
  · rfl
  · exact and_comm

theorem beq_ordered (d : Domain) : (d.ordered.min == d.ordered.max) = (d.min == d.max) := by
  rw [ordered]
  split
  · rfl
  · exact Number.beq_comm ..

/-- The place of one of `count` samples. It is no place if there is none before the last. -/
def point? (d : Domain) (count : UInt32) (i : Nat) : Option Float :=
  if count = 1 then some d.min
  else (pred? count).map fun last =>
    Number.smaller (d.min + (d.max - d.min) * .ofNat i / .ofNat last.toNat) d.max

theorem length_points (d : Domain) (n : Nat) : (d.points n).length = n := by
  rw [points]
  split
  · next h => rw [h]; rfl
  · rw [List.length_map, List.length_range]

theorem exists_points_eq (d : Domain) {count : UInt32} (h : 1 ≤ count.toNat) : ∃ x : Nat → Float,
    (∀ i, d.point? count i = some (x i)) ∧ d.points count.toNat = (List.range count.toNat).map x := by
  by_cases hone : count = 1
  · exact ⟨fun _ => d.min, fun i => if_pos hone, by rw [hone]; rfl⟩
  · have hn : ¬count.toNat = 1 := fun h => hone (UInt32.toNat_inj.1 h)
    have hzero : ¬count = 0 := by
      rintro rfl
      contradiction
    have hlast : pred? count = some (count - 1) := if_neg hzero
    refine ⟨_, fun i => ?_, if_neg hn⟩
    rw [point?, if_neg hone, hlast, Option.map_some, toNat_pred? hlast]

end Domain

namespace Formula

variable (f : Formula) (d : Domain) (samples : UInt32) (l : Limits)

/-- Samples a formula in one loop over the places of the samples. -/
def traced? : Option Curve :=
  let d := d.ordered
  if d.min.isFinite ∧ d.max.isFinite then do
    let count ← l.taken? d samples
    let t ← (List.range count.toNat).foldlM
      (fun (t : Trace) i => (d.point? count i).map fun x => t.step (f.point? l x)) {}
    return t.close
  else some []

theorem taken_ordered : l.taken d.ordered samples = l.taken d samples := by
  rw [Limits.taken, Limits.taken, Domain.beq_ordered]

theorem sample_eq (h : d.min.isFinite = true ∧ d.max.isFinite = true) : f.sample d samples l =
    .ofSamples ((d.ordered.points (l.taken d samples)).map (f.point? l)) := by
  rw [sample]
  dsimp only
  rw [if_pos (d.isFinite_ordered.2 h), l.toNat_sampleCount, ← taken_ordered, Limits.taken]

theorem sample_eq_nil (h : ¬(d.min.isFinite = true ∧ d.max.isFinite = true)) :
    f.sample d samples l = [] :=
  if_neg (mt d.isFinite_ordered.1 h)

theorem traced?_eq : f.traced? d samples l = some (f.sample d samples l) := by
  rw [traced?]
  by_cases h : d.min.isFinite = true ∧ d.max.isFinite = true
  · obtain ⟨count, hcount, hn⟩ := l.exists_taken? d.ordered samples
    obtain ⟨x, hx, hpoints⟩ := d.ordered.exists_points_eq (hn ▸ l.one_le_taken d.ordered samples)
    rw [if_pos (d.isFinite_ordered.2 h), hcount, sample_eq f d samples l h, ← taken_ordered, ← hn,
      hpoints]
    have hfold : (List.range count.toNat).foldlM (fun (t : Trace) i =>
          (d.ordered.point? count i).map fun x => t.step (f.point? l x)) {} =
        some (((List.range count.toNat).map (f.point? l ∘ x)).foldl Trace.step {}) := by
      simp only [hx, Option.map_some, List.foldl_map]
      exact List.foldlM_pure
    rw [Option.bind_eq_bind, Option.bind_some, hfold, Option.bind_eq_bind, Option.bind_some,
      Trace.close_foldl_step_empty, List.map_map]
    rfl
  · rw [if_neg (mt d.isFinite_ordered.1 h), sample_eq_nil f d samples l h]

/-- The samples that are kept are the points of the graph that are worth drawing. -/
theorem filterMap_point? (xs : List Float) : (xs.map (f.point? l)).filterMap id =
    (xs.map fun x => Point.mk x (f.eval x)).filter fun p => p.y.isFinite ∧ p.y.abs ≤ l.clamp := by
  induction xs with
  | nil => rfl
  | cons x xs ih =>
    rw [List.map_cons, List.map_cons, List.filter_cons, ← ih]
    by_cases h : (f.eval x).isFinite = true ∧ (f.eval x).abs ≤ l.clamp
    · have hp : id (f.point? l x) = some ⟨x, f.eval x⟩ := if_pos h
      rw [List.filterMap_cons_some hp, if_pos (decide_eq_true h)]
    · have hp : id (f.point? l x) = none := if_neg h
      rw [List.filterMap_cons_none hp, if_neg (mt of_decide_eq_true h)]

/-- A loop over the samples ends without a fault, and what it collects is the one cut of the samples
into runs at every gap between them. -/
theorem sample_splits : f.traced? d samples l = some (f.sample d samples l) ∧
    (¬(d.min.isFinite = true ∧ d.max.isFinite = true) → f.sample d samples l = []) ∧
    (d.min.isFinite = true ∧ d.max.isFinite = true →
      let xs := d.ordered.points (l.taken d samples)
      xs.length = l.taken d samples ∧
        (∀ c, Curve.Runs (xs.map (f.point? l)) c ↔ f.sample d samples l = c) ∧
        (∀ run ∈ f.sample d samples l, run ≠ []) ∧
        (f.sample d samples l).flatten = ((xs.map fun x => Point.mk x (f.eval x)).filter
          fun p => p.y.isFinite ∧ p.y.abs ≤ l.clamp) ∧
        ∀ before first second after, f.sample d samples l = before ++ first :: second :: after →
          ∃ front gap back, xs.map (f.point? l) =
              front ++ (first.map some ++ (gap ++ (second.map some ++ back))) ∧
            gap ≠ [] ∧ ∀ sample ∈ gap, sample = none) ∧
    (f.sample d samples l).pointCount ≤ l.taken d samples ∧ l.taken d samples ≤ 100000 := by
  refine ⟨traced?_eq f d samples l, sample_eq_nil f d samples l, fun h => ?_, ?_,
    l.taken_le d samples⟩
  · have hs := sample_eq f d samples l h
    have hruns := Curve.runs_iff.2 hs.symm
    refine ⟨d.ordered.length_points _, fun c => ?_, hruns.ne_nil, ?_, fun _ _ _ _ => hruns.exists_gap⟩
    · rw [Curve.runs_iff, hs]
    · rw [hruns.flatten_eq, filterMap_point?]
  · by_cases h : d.min.isFinite = true ∧ d.max.isFinite = true
    · rw [Curve.pointCount, (Curve.runs_iff.2 (sample_eq f d samples l h).symm).flatten_eq]
      refine (List.length_filterMap_le _ _).trans ?_
      rw [List.length_map, d.ordered.length_points]
    · rw [sample_eq_nil f d samples l h]
      exact Nat.zero_le _

/-- A hyperbola, which has no value at zero. -/
def hyperbola : Formula := ⟨"1/x", .binary .div (.number 1) .variable⟩

/-- Of three samples around zero, the one in the middle is a gap. -/
theorem sample_splits_hyperbola : hyperbola.sample ⟨1, -1⟩ 3 {} = [[⟨-1, -1⟩], [⟨1, 1⟩]] ∧
    ∃ front gap back, [some ⟨-1, -1⟩, none, some ⟨1, 1⟩] =
        front ++ ([some ⟨-1, -1⟩] ++ (gap ++ ([some ⟨1, 1⟩] ++ back))) ∧
      gap ≠ [] ∧ ∀ sample ∈ gap, sample = (none : Option Point) := by
  have hs : hyperbola.sample ⟨1, -1⟩ 3 {} = [[⟨-1, -1⟩], [⟨1, 1⟩]] := by decide +kernel
  have hp : ((Domain.ordered ⟨1, -1⟩).points (Limits.taken {} ⟨1, -1⟩ 3)).map (hyperbola.point? {}) =
      [some ⟨-1, -1⟩, none, some ⟨1, 1⟩] := by decide +kernel
  obtain ⟨-, -, h, -⟩ := sample_splits hyperbola ⟨1, -1⟩ 3 {}
  obtain ⟨-, -, -, -, hgap⟩ := h (by decide +kernel)
  rw [hp] at hgap
  exact ⟨hs, hgap [] [⟨-1, -1⟩] [⟨1, 1⟩] [] hs⟩

end Formula

end Sketch
