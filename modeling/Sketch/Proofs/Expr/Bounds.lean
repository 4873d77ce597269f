import Sketch.Proofs.Expr.Parser
import Sketch.Proofs.Expr.Rejection

/-!
How large and how deep expressions are. Each node of a tree stands for a token of its own, so a tree
is no larger than its tokens are many, and no higher. How deep tokens nest is another matter: a chain
of operators grows high without nesting, and a plus sign nests without a node.
-/

namespace Sketch

namespace Expr

mutual

/-- The tree itself and the trees below it. -/
def nodes : Expr → List Expr
  | .number v => [.number v]
  | .variable => [.variable]
  | .neg e => .neg e :: e.nodes
  | .binary op lhs rhs => .binary op lhs rhs :: (lhs.nodes ++ rhs.nodes)
  | .call f args => .call f args :: nodesAll args

def nodesAll : List Expr → List Expr
  | [] => []
  | e :: es => e.nodes ++ nodesAll es

end

mutual

/-- The nodes on the longest way down. -/
def height : Expr → Nat
  | .number _ => 1
  | .variable => 1
  | .neg e => e.height + 1
  | .binary _ lhs rhs => max lhs.height rhs.height + 1
  | .call _ args => heightAll args + 1

def heightAll : List Expr → Nat
  | [] => 0
  | e :: es => max e.height (heightAll es)

end

mutual

theorem height_le_length_nodes : ∀ e : Expr, e.height ≤ e.nodes.length
  | .number _ => Nat.le_refl 1
  | .variable => Nat.le_refl 1
  | .neg e => Nat.succ_le_succ (height_le_length_nodes e)
  | .binary op lhs rhs => by
    have hl := height_le_length_nodes lhs
    have hr := height_le_length_nodes rhs
    rw [height, nodes, List.length_cons, List.length_append]
    omega
  | .call _ args => Nat.succ_le_succ (heightAll_le_length_nodesAll args)

theorem heightAll_le_length_nodesAll : ∀ es : List Expr, heightAll es ≤ (nodesAll es).length
  | [] => Nat.le_refl 0
  | e :: es => by
    have he := height_le_length_nodes e
    have hes := heightAll_le_length_nodesAll es
    rw [heightAll, nodesAll, List.length_append]
    omega

end

theorem mem_nodesAll {e : Expr} {es : List Expr} : e ∈ nodesAll es ↔ ∃ f ∈ es, e ∈ f.nodes := by
  induction es with
  | nil => simp [nodesAll]
  | cons f es ih => simp [nodesAll, ih]

theorem length_evalAll (x : Float) (es : List Expr) : (evalAll x es).length = es.length := by
  induction es with
  | nil => rfl
  | cons e es ih => rw [evalAll, List.length_cons, List.length_cons, ih]

section Derived

variable {k : Phrase} {n : Nat} {us : List Token} {e : Expr}

theorem length_nodesAll_le {others : List (List Token × Expr)}
    (h : ∀ a ∈ others, a.2.nodes.length ≤ a.1.length) :
    (nodesAll (others.map (·.2))).length ≤ (otherTokens others).length := by
  induction others with
  | nil => exact Nat.le_refl 0
  | cons a others ih =>
    obtain ⟨ha, ho⟩ := List.forall_mem_cons.1 h
    have hrest := ih ho
    rw [otherTokens] at hrest ⊢
    simp only [List.map_cons, nodesAll, List.flatMap_cons, List.length_append, List.length_cons]
    omega

theorem Derives.length_nodes_le (h : Derives k n us e) : e.nodes.length ≤ us.length := by
  induction h with
  | product _ ih => exact ih
  | signed _ ih => exact ih
  | power _ ih => exact ih
  | primary _ ih => exact ih
  | add _ _ ih ih' | sub _ _ ih ih' | mul _ _ ih ih' | div _ _ ih ih' | pow _ _ ih ih' =>
    simp only [nodes, List.length_append, List.length_cons]
    omega
  | minus _ ih => exact Nat.succ_le_succ ih
  | plus _ ih => exact Nat.le_succ_of_le ih
  | number v => exact Nat.le_refl 1
  | var => exact Nat.le_refl 1
  | pi => exact Nat.le_refl 1
  | euler => exact Nat.le_refl 1
  | call f others _ _ _ ih ih' =>
    have ho := length_nodesAll_le ih'
    rw [otherTokens] at ho
    simp only [nodes, nodesAll, List.length_append, List.length_cons, List.length_nil]
    omega
  | parens _ ih =>
    simp only [List.length_append, List.length_cons, List.length_nil]
    omega

/-- The only calls of a tree are those that the grammar makes. -/
theorem Derives.length_args (h : Derives k n us e) {g : Builtin} {args : List Expr}
    (hc : .call g args ∈ e.nodes) : args.length = g.arity := by
  induction h with
  | product _ ih => exact ih hc
  | signed _ ih => exact ih hc
  | power _ ih => exact ih hc
  | primary _ ih => exact ih hc
  | plus _ ih => exact ih hc
  | parens _ ih => exact ih hc
  | add _ _ ih ih' | sub _ _ ih ih' | mul _ _ ih ih' | div _ _ ih ih' | pow _ _ ih ih' =>
    rw [nodes] at hc
    rcases List.mem_cons.1 hc with hc | hc
    · contradiction
    · exact (List.mem_append.1 hc).elim ih ih'
  | minus _ ih =>
    rw [nodes] at hc
    rcases List.mem_cons.1 hc with hc | hc
    · contradiction
    · exact ih hc
  | number v => exact absurd (List.mem_singleton.1 hc) nofun
  | var => exact absurd (List.mem_singleton.1 hc) nofun
  | pi => exact absurd (List.mem_singleton.1 hc) nofun
  | euler => exact absurd (List.mem_singleton.1 hc) nofun
  | call f others _ _ hf ih ih' =>
    rw [nodes] at hc
    rcases List.mem_cons.1 hc with hc | hc
    · cases hc
      rw [List.length_cons, List.length_map, hf]
    · obtain ⟨e, he, hn⟩ := mem_nodesAll.1 hc
      rcases List.mem_cons.1 he with rfl | he
      · exact ih hn
      · obtain ⟨a, ha, rfl⟩ := List.mem_map.1 he
        exact ih' a ha hn

end Derived

/-! ### Counting levels -/

section Counting

variable {run : Nat → Level}

/-- The entry of the level at `depth` into the next one, which is `run` if it is not too deep. -/
def nested (run : Nat → Level) (depth : Nat) : Entry := fun place =>
  if depth + 1 ≤ maxDepth then .ok (run (depth + 1)) else .error (.tooDeep place)

/-- The readers of each depth that is allowed count one more for the levels that they enter. -/
def Counts (run : Nat → Level) : Prop := ∀ depth ≤ maxDepth, run depth = level (nested run depth)

theorem nested_eq_entry {depth room : Nat} (hd : depth + room = maxDepth)
    (hr : ∀ r, room = r + 1 → run (depth + 1) = withRoom r) : nested run depth = entry room := by
  funext place
  cases room with
  | zero => rw [nested, if_neg (by omega), entry]
  | succ r => rw [nested, if_pos (by omega), hr r rfl, entry]

theorem counts_withRoom : Counts fun depth => withRoom (maxDepth - depth) := by
  intro depth hd
  rw [nested_eq_entry (Nat.add_sub_of_le hd)]
  · exact withRoom_eq _
  · intro r hr
    rw [Nat.sub_add_eq, hr, Nat.add_sub_cancel]

/-- Whatever readers there are for the depths that are not allowed, they are never asked. -/
theorem Counts.eq_withRoom (h : Counts run) {depth room : Nat} (hd : depth + room = maxDepth) :
    run depth = withRoom room := by
  induction room generalizing depth with
  | zero =>
    rw [h depth (Nat.le_of_eq hd), withRoom_eq, nested_eq_entry hd]
    intro r hr
    contradiction
  | succ room ih =>
    rw [h depth (hd ▸ Nat.le_add_right ..), withRoom_eq, nested_eq_entry hd]
    intro r hr
    cases hr
    exact ih (by omega)

end Counting

/-- All tokens of an expression are read as one sum, from the outermost level on. -/
theorem reader_of_parse_eq_ok {ts : List Lexeme} {e : Expr} (h : parse ts = .ok e) :
    ts.length ≤ maxTokens ∧ reader maxDepth .sum ts = .ok (e, []) := by
  have hl : ts.length ≤ maxTokens := Nat.le_of_not_lt fun hl => by
    obtain ⟨fault, hf⟩ := parse_eq_error_of_lt hl
    cases hf.symm.trans h
  refine ⟨hl, ?_⟩
  have hn : ts ≠ [] := by
    rintro rfl
    contradiction
  rw [parse_of_length_le hl hn] at h
  obtain ⟨⟨e', rest⟩, he, hend⟩ := bind_eq_ok_iff.1 h
  cases rest with
  | nil =>
    cases hend
    exact he
  | cons t rest => contradiction

end Expr

namespace Formula

theorem exists_of_ofText_eq_ok {source : String} {f : Formula} (h : ofText source = .ok f) :
    ∃ ts, Lexeme.ofText source.toList = .ok ts ∧ Expr.parse ts = .ok f.expr := by
  obtain ⟨ts, hts, -⟩ := (bind_eq_ok_iff (x := Lexeme.ofText source.toList)).1 h
  refine ⟨ts, hts, ?_⟩
  rw [ofText_of_lexemes hts] at h
  cases hp : Expr.parse ts with
  | error fault =>
    rw [hp] at h
    contradiction
  | ok e =>
    rw [hp] at h
    cases h
    rfl

/-- A formula calls each function with as many arguments as it takes, its tree is no larger than its
tokens are many, and its tokens nest no deeper than the limit: readers that count how deep they stand
never enter a level beyond it, so it makes no difference what they would do there. -/
theorem ofText_bounded {source : String} {f : Formula} (h : ofText source = .ok f) :
    (∀ g args, .call g args ∈ f.expr.nodes →
      args.length = g.arity ∧ ∀ x, (Expr.evalAll x args).length = g.arity) ∧
    (∃ ts, Lexeme.ofText source.toList = .ok ts ∧ f.expr.nodes.length ≤ ts.length ∧
      Expr.Derives .sum 64 (ts.map (·.token)) f.expr ∧
      ∀ run, Expr.Counts run → run 0 = Expr.withRoom 64 ∧ (run 0).sum ts = .ok (f.expr, [])) ∧
    f.expr.nodes.length ≤ 256 ∧ f.expr.height ≤ 256 := by
  obtain ⟨ts, hts, hp⟩ := exists_of_ofText_eq_ok h
  obtain ⟨hl, hr⟩ := Expr.reader_of_parse_eq_ok hp
  have hd := Expr.reader_eq_ok_iff.1 hr
  have hn : f.expr.nodes.length ≤ ts.length := by
    have := hd.length_nodes_le
    rwa [List.length_map] at this
  have hmax : f.expr.nodes.length ≤ 256 := Nat.le_trans hn hl
  refine ⟨fun g args hc => ?_, ⟨ts, hts, hn, hd, fun run hrun => ?_⟩, hmax,
    Nat.le_trans f.expr.height_le_length_nodes hmax⟩
  · have harity := hd.length_args hc
    exact ⟨harity, fun x => (Expr.length_evalAll x args).trans harity⟩
  · have hrun0 : run 0 = Expr.withRoom 64 := hrun.eq_withRoom rfl
    exact ⟨hrun0, hrun0 ▸ hr⟩

theorem ofText_bounded_larger : ∃ f, ofText "max(x, +x)" = .ok f ∧
    f.expr = .call .max [.variable, .variable] ∧
    [Expr.variable, .variable].length = Builtin.max.arity ∧
    (∃ run, Expr.Counts run) ∧ f.expr.nodes.length ≤ 256 ∧ f.expr.height ≤ 256 := by
  have h : ofText "max(x, +x)" = .ok ⟨"max(x, +x)", .call .max [.variable, .variable]⟩ := by cbv
  obtain ⟨hcalls, -, hsize⟩ := ofText_bounded h
  exact ⟨_, h, rfl, (hcalls _ _ (List.mem_cons_self ..)).1, ⟨_, Expr.counts_withRoom⟩, hsize⟩

end Formula

end Sketch
