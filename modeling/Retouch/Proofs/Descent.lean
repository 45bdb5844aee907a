import Mathlib.Algebra.Order.BigOperators.Group.List
import Mathlib.Data.Finset.Card
import Mathlib.Logic.Relation
import Mathlib.Tactic.Ring
import Retouch.Forest.Walk

/-!
# What lies below a node

A forest is acyclic below a node if no node there lies below itself. Only the nodes of the forest
have children, so a way down without a cycle is no longer than the forest is large
(`Acyclic.within`), and the depth carries every induction over an acyclic forest. A loop that takes
one step for a node, one for each of so many pieces of text and its steps for each child stays
within the forest's budget (`cost_le_budget`). In particular a walk comes to its end: it goes
through a node and then through its children in order (`walk_eq`), and lists exactly the nodes below
its start (`mem_walk`).
-/

namespace Retouch.Forest

/-- `c` stands in a slot of `n`. -/
def Holds (f : Forest) (n c : NodeId) : Prop :=
  c ∈ (f.node n).children

/-- `m` is `n` or lies below it. -/
def Below (f : Forest) (n m : NodeId) : Prop :=
  Relation.ReflTransGen f.Holds n m

/-- No node at or below `n` lies below itself. -/
def Acyclic (f : Forest) (n : NodeId) : Prop :=
  ∀ m, f.Below n m → ¬ Relation.TransGen f.Holds m m

/-- Every way down from `n` ends within so many nodes. -/
def Within (f : Forest) : Nat → NodeId → Prop
  | 0, _ => False
  | depth + 1, n => ∀ c ∈ (f.node n).children, f.Within depth c

instance decidableWithin (f : Forest) : ∀ (depth : Nat) (n : NodeId), Decidable (f.Within depth n)
  | 0, _ => inferInstanceAs (Decidable False)
  | depth + 1, n =>
    have := decidableWithin f depth
    inferInstanceAs (Decidable (∀ c ∈ (f.node n).children, f.Within depth c))

variable {f : Forest}

theorem Below.refl (n : NodeId) : f.Below n n :=
  Relation.ReflTransGen.refl

theorem Below.child {n m c : NodeId} (h : f.Below n m) (hc : c ∈ (f.node m).children) :
    f.Below n c :=
  Relation.ReflTransGen.tail h hc

theorem Below.of_child {n m c : NodeId} (hc : c ∈ (f.node n).children) (h : f.Below c m) :
    f.Below n m :=
  Relation.ReflTransGen.head hc h

theorem Below.trans {a b c : NodeId} (h : f.Below a b) (h' : f.Below b c) : f.Below a c :=
  Relation.ReflTransGen.trans h h'

/-- What lies below a node is the node, or lies below one of its children. -/
theorem below_iff {n m : NodeId} :
    f.Below n m ↔ m = n ∨ ∃ c ∈ (f.node n).children, f.Below c m := by
  constructor
  · intro h
    rcases Relation.ReflTransGen.cases_head h with rfl | ⟨c, hc, hm⟩
    · exact Or.inl rfl
    · exact Or.inr ⟨c, hc, hm⟩
  · rintro (rfl | ⟨c, hc, hm⟩)
    · exact Below.refl _
    · exact Below.of_child hc hm

/-- Nodes outside the forest have no children. -/
theorem lt_size_of_mem_children {n c : NodeId} (h : c ∈ (f.node n).children) : n < f.size := by
  by_contra hn
  have hd : f.node n = default := by
    unfold node
    unfold size at hn
    simp [Array.getD, hn]
  rw [hd] at h
  exact absurd h (by simp [default, instInhabitedNode.default])

/-! ## Depth -/

theorem Within.mono : ∀ {k l : Nat} {n : NodeId}, f.Within k n → k ≤ l → f.Within l n
  | 0, _, _, h, _ => h.elim
  | k + 1, 0, _, _, hl => by omega
  | k + 1, l + 1, _, h, hl => fun c hc => Within.mono (h c hc) (by omega)

theorem Within.below : ∀ {k : Nat} {n m : NodeId}, f.Within k n → f.Below n m → f.Within k m
  | 0, _, _, h, _ => h.elim
  | k + 1, n, m, h, hm => by
    rcases below_iff.1 hm with rfl | ⟨c, hc, hcm⟩
    · exact h
    · exact (Within.below (h c hc) hcm).mono (Nat.le_succ k)

theorem Within.not_transGen : ∀ {k : Nat} {n : NodeId}, f.Within k n →
    ¬ Relation.TransGen f.Holds n n
  | 0, _, h => h.elim
  | k + 1, n, h => by
    intro ht
    obtain ⟨c, hc, hcn⟩ := Relation.TransGen.head'_iff.1 ht
    exact Within.not_transGen ((h c hc).below hcn) ht

theorem Within.acyclic {k : Nat} {n : NodeId} (h : f.Within k n) : f.Acyclic n :=
  fun _ hm => (h.below hm).not_transGen

theorem Acyclic.below {n m : NodeId} (h : f.Acyclic n) (hm : f.Below n m) : f.Acyclic m :=
  fun _ hx => h _ (hm.trans hx)

/-- A way down passes through every node at most once. -/
theorem Acyclic.within_card : ∀ (k : Nat) (V : Finset Nat) {n : NodeId}, V.card = k →
    f.Acyclic n → (∀ m, f.Below n m → (f.node m).children ≠ [] → m ∈ V) → f.Within (k + 1) n
  | 0, V, n, hk, _, hV => by
    intro c hc
    have hn := hV n (Below.refl n) (List.ne_nil_of_mem hc)
    rw [Finset.card_eq_zero.1 hk] at hn
    exact absurd hn (Finset.notMem_empty n)
  | k + 1, V, n, hk, ha, hV => by
    intro c hc
    have hn : n ∈ V := hV n (Below.refl n) (List.ne_nil_of_mem hc)
    refine Acyclic.within_card k (V.erase n) (by rw [Finset.card_erase_of_mem hn]; omega)
      (ha.below ((Below.refl n).child hc)) fun m hm hne => ?_
    refine Finset.mem_erase.2 ⟨?_, hV m (Below.of_child hc hm) hne⟩
    rintro rfl
    exact ha m (Below.refl m) (Relation.TransGen.head' hc hm)

/-- Without a cycle there are at most as many nodes on a way down as the forest has, and possibly
one more outside. -/
theorem Acyclic.within {n : NodeId} (h : f.Acyclic n) : f.Within (f.size + 1) n := by
  refine Acyclic.within_card f.size (Finset.range f.size) (Finset.card_range _) h ?_
  intro m _ hne
  obtain ⟨c, hc⟩ := List.exists_mem_of_ne_nil _ hne
  exact Finset.mem_range.2 (lt_size_of_mem_children hc)

theorem Acyclic.of_children {n : NodeId} (h : ∀ c ∈ (f.node n).children, f.Acyclic c) :
    f.Acyclic n :=
  Within.acyclic (k := f.size + 2) fun c hc => (h c hc).within

/-! ## The budget -/

theorem foldl_max_ge (l : List Node) : ∀ (w : Nat),
    w ≤ l.foldl (fun w n => max w n.children.length) w ∧
      ∀ n ∈ l, n.children.length ≤ l.foldl (fun w n => max w n.children.length) w := by
  induction l with
  | nil => simp
  | cons a l ih =>
    intro w
    obtain ⟨h1, h2⟩ := ih (max w a.children.length)
    simp only [List.foldl_cons, List.mem_cons, forall_eq_or_imp]
    exact ⟨by omega, by omega, h2⟩

/-- No node has more children than the forest is wide. -/
theorem length_children_le (f : Forest) (n : NodeId) : (f.node n).children.length ≤ f.width := by
  by_cases hn : n < f.nodes.size
  · have hm : f.node n ∈ f.nodes.toList := by
      unfold node
      simp [Array.getD, hn]
    unfold width
    rw [← Array.foldl_toList]
    exact (foldl_max_ge f.nodes.toList 0).2 _ hm
  · unfold node
    simp [Array.getD, hn, default, instInhabitedNode.default]

/-- More steps than a loop takes for a node, if it takes three for the node itself, one more for
each child and its steps for the child. -/
def cost (f : Forest) (depth : Nat) : Nat :=
  (f.width + 3) ^ depth

theorem Within.cost_children {depth : Nat} {n : NodeId} (h : f.Within (depth + 1) n) :
    (f.node n).children.length * f.cost depth + (f.node n).children.length + 3
      ≤ f.cost (depth + 1) := by
  have hc := length_children_le f n
  unfold cost
  rcases Nat.eq_zero_or_pos depth with rfl | hp
  · have hnil : (f.node n).children = [] := List.eq_nil_iff_forall_not_mem.2 fun c hc => h c hc
    simp [hnil]
  · have h1 : f.width + 3 ≤ (f.width + 3) ^ depth := Nat.le_self_pow (by omega) _
    have h2 := Nat.mul_le_mul_right ((f.width + 3) ^ depth) hc
    have h3 : (f.width + 3) ^ (depth + 1)
        = f.width * (f.width + 3) ^ depth + 3 * (f.width + 3) ^ depth := by ring
    omega

theorem cost_pos (f : Forest) (depth : Nat) : 0 < f.cost depth :=
  Nat.pow_pos (by omega)

theorem cost_le_budget (f : Forest) : f.cost (f.size + 1) ≤ f.budget :=
  Nat.pow_le_pow_right (by omega) (by omega)

theorem exists_budget_eq {steps : Nat} (h : steps ≤ f.cost (f.size + 1)) :
    ∃ fuel, f.budget = fuel + steps := by
  have := f.cost_le_budget
  exact ⟨f.budget - steps, by omega⟩

/-! ## The walk -/

/-- The node and all below it down to a depth, in pre-order. -/
def preorder (f : Forest) : Nat → NodeId → List NodeId
  | 0, _ => []
  | depth + 1, n => n :: (f.node n).children.flatMap (f.preorder depth)

theorem Within.preorder_eq_of_le : ∀ {k l : Nat} {n : NodeId}, f.Within k n → k ≤ l →
    f.preorder l n = f.preorder k n
  | 0, _, _, h, _ => h.elim
  | k + 1, 0, _, _, hl => by omega
  | k + 1, l + 1, n, h, hl => by
    rw [preorder, preorder]
    congr 1
    exact List.flatMap_congr fun c hc => (h c hc).preorder_eq_of_le (by omega)

/-- Below a node of bounded depth the children come in order, each with all below it. -/
theorem Within.preorder_eq {depth : Nat} {n : NodeId} (h : f.Within depth n) :
    f.preorder depth n = n :: (f.node n).children.flatMap (f.preorder depth) := by
  cases depth with
  | zero => exact h.elim
  | succ depth =>
    rw [preorder]
    congr 1
    exact List.flatMap_congr fun c hc => ((h c hc).preorder_eq_of_le (Nat.le_succ depth)).symm

theorem Within.length_preorder_le : ∀ {depth : Nat} {n : NodeId}, f.Within depth n →
    (f.preorder depth n).length ≤ f.cost depth
  | 0, _, h => h.elim
  | depth + 1, n, h => by
    have hsum : ((f.node n).children.map fun c => (f.preorder depth c).length).sum ≤
        (f.node n).children.length * f.cost depth := by
      refine (List.sum_le_card_nsmul _ (f.cost depth) ?_).trans (by simp)
      simpa using fun c hc => (h c hc).length_preorder_le
    have hcost := h.cost_children
    rw [preorder, List.length_cons, List.length_flatMap]
    omega

theorem Within.mem_preorder : ∀ {depth : Nat} {n m : NodeId}, f.Within depth n →
    (m ∈ f.preorder depth n ↔ f.Below n m)
  | 0, _, _, h => h.elim
  | depth + 1, n, m, h => by
    rw [preorder, List.mem_cons, List.mem_flatMap, below_iff]
    refine or_congr Iff.rfl (exists_congr fun c => and_congr_right fun hc => ?_)
    exact (h c hc).mem_preorder

/-- A walk with this fuel comes to the end of the stack, with nodes of bounded depth on it. -/
structure Walkable (f : Forest) (depth fuel : Nat) (stack : List NodeId) : Prop where
  within : ∀ n ∈ stack, f.Within depth n
  enough : (stack.flatMap (f.preorder depth)).length ≤ fuel

theorem Walkable.cons {depth fuel : Nat} {n : NodeId} {stack : List NodeId}
    (h : f.Walkable depth fuel (n :: stack)) :
    ∃ less, fuel = less + 1 ∧ f.Walkable depth less ((f.node n).children ++ stack) := by
  obtain ⟨hn, hstack⟩ := List.forall_mem_cons.1 h.within
  have henough := h.enough
  rw [List.flatMap_cons, hn.preorder_eq, List.cons_append, List.length_cons,
    ← List.flatMap_append] at henough
  refine ⟨fuel - 1, by omega, fun m hm => ?_, by omega⟩
  rcases List.mem_append.1 hm with hm | hm
  · exact hn.below ((Below.refl n).child hm)
  · exact hstack m hm

theorem Walkable.walkFrom_eq : ∀ {depth fuel : Nat} {stack : List NodeId},
    f.Walkable depth fuel stack → f.walkFrom fuel stack = stack.flatMap (f.preorder depth)
  | _, 0, [], _ | _, _ + 1, [], _ => by simp [walkFrom]
  | _, 0, _ :: _, h => by
    obtain ⟨_, hfuel, -⟩ := h.cons
    omega
  | depth, fuel + 1, n :: stack, h => by
    obtain ⟨less, hfuel, hless⟩ := h.cons
    cases hfuel
    rw [walkFrom, hless.walkFrom_eq, List.flatMap_append, List.flatMap_cons,
      (h.within n List.mem_cons_self).preorder_eq, List.cons_append]

/-- The budget is enough for the walk of a node. -/
theorem Acyclic.walkable {n : NodeId} (h : f.Acyclic n) : f.Walkable (f.size + 1) f.budget [n] := by
  refine ⟨by simpa using h.within, ?_⟩
  rw [List.flatMap_singleton]
  exact h.within.length_preorder_le.trans f.cost_le_budget

theorem walk_eq_preorder {n : NodeId} (h : f.Acyclic n) :
    f.walk n = f.preorder (f.size + 1) n := by
  unfold walk
  rw [h.walkable.walkFrom_eq, List.flatMap_singleton]

/-- The walk of a node is the node, followed by the walks of its children. -/
theorem walk_eq {n : NodeId} (h : f.Acyclic n) :
    f.walk n = n :: (f.node n).children.flatMap f.walk := by
  rw [walk_eq_preorder h, h.within.preorder_eq]
  congr 1
  exact List.flatMap_congr fun c hc =>
    (walk_eq_preorder (h.below ((Below.refl n).child hc))).symm

/-- The walk of a node lists exactly the nodes below it. -/
theorem mem_walk {n m : NodeId} (h : f.Acyclic n) : m ∈ f.walk n ↔ f.Below n m := by
  rw [walk_eq_preorder h, h.within.mem_preorder]

/-- A node is pristine when no node below it was modified. -/
theorem isPristine_iff {n : NodeId} (h : f.Acyclic n) :
    f.isPristine n = true ↔ ∀ m, f.Below n m → (f.node m).isModified = false := by
  simp [isPristine_eq_all, mem_walk h]

end Retouch.Forest
