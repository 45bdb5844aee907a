import Retouch.Proofs.Grafting
import Retouch.Proofs.Planting

/-!
# Planted trees

The nodes of a planted tree are numbered in document order, so what lies below a node is a stretch
of numbers (`Throughout.below_iff`), a walk lists the numbers in turn (`Throughout.walk_eq`), and no
node occurs twice (`Throughout.isTree`). A tree just planted is pristine.
-/

namespace Retouch.SyntaxTree

/-- The children of the node are the roots of the tree's children. -/
def Branches (g : Forest) (t : SyntaxTree) (n : NodeId) : Prop :=
  (g.node n).children = rootIds (n + 1) t.children

variable {g : Forest}

theorem Stands.branches {source : Source} {t : SyntaxTree} {n : NodeId}
    (h : Stands source g t n) : Branches g t n := by
  obtain ⟨text, -, hg⟩ := h
  rw [Branches, hg]
  rfl

theorem ThroughoutAll.edge {ts : List SyntaxTree} {n m c : Nat}
    (h : ThroughoutAll (Branches g) ts n) (h1 : n ≤ m) (h2 : m < n + countAll ts)
    (hc : c ∈ (g.node m).children) : m < c ∧ c < n + countAll ts := by
  obtain ⟨t, ht, hle⟩ := h.at h1 h2
  have hcount := count_eq t
  rw [ht.here] at hc
  have := mem_rootIds hc
  omega

theorem ThroughoutAll.below {ts : List SyntaxTree} {n m x : Nat}
    (h : ThroughoutAll (Branches g) ts n) (h1 : n ≤ m) (h2 : m < n + countAll ts)
    (hx : g.Below m x) : m ≤ x ∧ x < n + countAll ts := by
  induction hx with
  | refl => exact ⟨le_rfl, h2⟩
  | tail _ hc ih =>
    have := h.edge (h1.trans ih.1) ih.2 hc
    omega

/-- Every node of planted trees lies below one of the roots. -/
theorem ThroughoutAll.below_root : ∀ {ts : List SyntaxTree} {n m : Nat},
    ThroughoutAll (Branches g) ts n → n ≤ m → m < n + countAll ts →
    ∃ r ∈ rootIds n ts, g.Below r m
  | [], n, m, _, h1, h2 => by simp only [countAll] at h2; omega
  | t :: ts, n, m, h, h1, h2 => by
    have ht := count_eq t
    simp only [countAll] at h2
    by_cases hm : m = n
    · subst hm
      exact ⟨m, List.mem_cons_self, .refl m⟩
    by_cases hlt : m < n + t.count
    · obtain ⟨r, hr, hb⟩ := ThroughoutAll.below_root (m := m) h.1.below (by omega) (by omega)
      exact ⟨n, List.mem_cons_self, .of_child (h.1.here ▸ hr) hb⟩
    · obtain ⟨r, hr, hb⟩ := ThroughoutAll.below_root (m := m) h.2 (by omega) (by omega)
      exact ⟨r, List.mem_cons_of_mem _ hr, hb⟩
termination_by ts => countAll ts
decreasing_by
  all_goals
    simp only [countAll]
    omega

/-- No root of planted trees is held by a node of them. -/
theorem ThroughoutAll.root_not_held : ∀ {ts : List SyntaxTree} {n r x : Nat},
    ThroughoutAll (Branches g) ts n → r ∈ rootIds n ts → n ≤ x → x < n + countAll ts →
    r ∉ (g.node x).children
  | [], _, _, _, _, hr, _, _, _ => by cases hr
  | t :: ts, n, r, x, h, hr, h1, h2, hc => by
    have hedge := h.edge h1 h2 hc
    rcases List.mem_cons.1 hr with rfl | hr
    · omega
    · have hrange := mem_rootIds hr
      by_cases hlt : x < n + t.count
      · have := (show ThroughoutAll (Branches g) [t] n from ⟨h.1, trivial⟩).edge h1
          (by simpa [countAll] using hlt) hc
        simp only [countAll] at this
        omega
      · simp only [countAll] at h2
        exact h.2.root_not_held hr (by omega) (by omega) hc

/-- A node of planted trees is held by one of their nodes at most. -/
theorem ThroughoutAll.holder : ∀ {ts : List SyntaxTree} {n x y c : Nat},
    ThroughoutAll (Branches g) ts n → n ≤ x → x < n + countAll ts → n ≤ y →
    y < n + countAll ts → c ∈ (g.node x).children → c ∈ (g.node y).children → x = y
  | [], n, x, _, _, _, h1, h2, _, _, _, _ => by simp only [countAll] at h2; omega
  | t :: ts, n, x, y, c, h, hx, hx', hy, hy', hcx, hcy => by
    have ht := count_eq t
    have hone : ThroughoutAll (Branches g) [t] n := ⟨h.1, trivial⟩
    have hcount : countAll [t] = t.count := by simp [countAll]
    have hsplit : ∀ {z : Nat}, n ≤ z → z < n + countAll (t :: ts) → c ∈ (g.node z).children →
        (z < n + t.count ↔ c < n + t.count) := by
      intro z hz hz' hc
      have hup := h.edge hz hz' hc
      refine ⟨fun hlt => ?_, fun hlt => by omega⟩
      have := hone.edge hz (by omega) hc
      omega
    have hsx := hsplit hx hx' hcx
    have hsy := hsplit hy hy' hcy
    simp only [countAll] at hx' hy'
    by_cases hlt : c < n + t.count
    · by_cases hxn : x = n
      · subst hxn
        by_cases hyn : y = x
        · exact hyn.symm
        · have := h.1.below.root_not_held (h.1.here ▸ hcx) (x := y) (by omega) (by omega)
          exact absurd hcy this
      · by_cases hyn : y = n
        · subst hyn
          have := h.1.below.root_not_held (h.1.here ▸ hcy) (x := x) (by omega) (by omega)
          exact absurd hcx this
        · exact h.1.below.holder (x := x) (y := y) (by omega) (by omega) (by omega) (by omega)
            hcx hcy
    · exact h.2.holder (x := x) (y := y) (by omega) (by omega) (by omega) (by omega) hcx hcy
termination_by ts => countAll ts
decreasing_by
  all_goals
    simp only [countAll]
    omega

/-- A walk lists the nodes of planted trees in the order of their numbers. -/
theorem ThroughoutAll.walkFrom_eq : ∀ {ts : List SyntaxTree} {n : Nat} (fuel : Nat)
    (rest : List NodeId), ThroughoutAll (Branches g) ts n →
    g.walkFrom (fuel + countAll ts) (rootIds n ts ++ rest) =
      List.range' n (countAll ts) ++ g.walkFrom fuel rest
  | [], n, fuel, rest, _ => by simp [rootIds, countAll]
  | t :: ts, n, fuel, rest, h => by
    have ht := count_eq t
    rw [show fuel + countAll (t :: ts) = (fuel + countAll ts) + countAll t.children + 1 by
      simp only [countAll]; omega]
    simp only [rootIds, List.cons_append, Forest.walkFrom]
    rw [h.1.here, ThroughoutAll.walkFrom_eq _ _ h.1.below, ThroughoutAll.walkFrom_eq _ _ h.2,
      show countAll (t :: ts) = countAll t.children + countAll ts + 1 by
        simp only [countAll]; omega, List.range'_succ, ← List.range'_append_1]
    simp only [List.cons_append, List.append_assoc]
    rw [show n + t.count = n + 1 + countAll t.children by omega]
termination_by ts => countAll ts
decreasing_by
  all_goals
    simp only [countAll]
    omega

/-! ## One tree -/

section Tree

variable {t : SyntaxTree} {n : Nat} (h : Throughout (Branches g) t n)

include h

theorem Throughout.all : ThroughoutAll (Branches g) [t] n ∧ countAll [t] = t.count :=
  ⟨⟨h, trivial⟩, by simp [countAll]⟩

/-- What lies below the root is what was planted with it. -/
theorem Throughout.below_iff {m : Nat} : g.Below n m ↔ n ≤ m ∧ m < n + t.count := by
  obtain ⟨hall, hcount⟩ := h.all
  have ht := t.count_pos
  rw [← hcount] at ht ⊢
  constructor
  · exact hall.below le_rfl (by omega)
  · rintro ⟨h1, h2⟩
    obtain ⟨r, hr, hb⟩ := hall.below_root h1 h2
    simp only [rootIds, List.mem_singleton] at hr
    exact hr ▸ hb

theorem Throughout.acyclic : g.Acyclic n := by
  obtain ⟨hall, hcount⟩ := h.all
  have up : ∀ a b : Nat, Relation.TransGen g.Holds a b → n ≤ a → a < n + t.count →
      a < b ∧ b < n + t.count := by
    intro a b hab h1 h2
    induction hab with
    | single hc => exact hcount ▸ hall.edge h1 (hcount ▸ h2) hc
    | tail _ hc ih =>
      have := hall.edge (by omega) (hcount ▸ ih.2) hc
      omega
  intro m hm hcycle
  obtain ⟨h1, h2⟩ := h.below_iff.1 hm
  have := (up m m hcycle h1 h2).1
  omega

theorem Throughout.isTree (hsize : n + t.count ≤ g.size) : g.IsTree n := by
  obtain ⟨hall, hcount⟩ := h.all
  refine ⟨fun x hx => ?_, fun x hx => ?_, fun x y c hx hy hcx hcy => ?_, fun x hx hc => ?_⟩
  · exact (h.below_iff.1 hx).2.trans_le hsize
  · obtain ⟨h1, h2⟩ := h.below_iff.1 hx
    obtain ⟨t', ht', -⟩ := h.at h1 h2
    rw [ht'.here]
    exact nodup_rootIds _ _
  · obtain ⟨hx1, hx2⟩ := h.below_iff.1 hx
    obtain ⟨hy1, hy2⟩ := h.below_iff.1 hy
    exact hall.holder hx1 (by omega) hy1 (by omega) hcx hcy
  · obtain ⟨h1, h2⟩ := h.below_iff.1 hx
    have := hall.edge h1 (by omega) hc
    omega

/-- A walk lists the nodes in the order of their numbers. -/
theorem Throughout.walk_eq (hsize : n + t.count ≤ g.size) :
    g.walk n = List.range' n t.count := by
  obtain ⟨hall, hcount⟩ := h.all
  have hbudget : t.count ≤ g.budget := by
    have : g.size + 2 < Nat.pow (g.width + 3) (g.size + 2) := Nat.lt_pow_self (by omega)
    unfold Forest.budget
    omega
  have := hall.walkFrom_eq (g.budget - t.count) []
  rw [hcount, Nat.sub_add_cancel hbudget] at this
  unfold Forest.walk
  refine this.trans ?_
  cases g.budget - t.count <;> simp [Forest.walkFrom]

end Tree

/-! ## A tree just planted -/

namespace Rooted

variable {source : Source} {t : SyntaxTree} {f : Forest} {root : Nat}

theorem branches (h : Rooted source t f g root) : Throughout (Branches g) t root := by
  obtain ⟨text, -, hg⟩ := h.top
  exact throughout_iff.2 ⟨by rw [Branches, hg]; rfl, h.trees.imp fun _ _ _ _ hs => hs.branches⟩

theorem isTree (h : Rooted source t f g root) : g.IsTree root :=
  h.branches.isTree (by rw [h.root_eq, h.size])

/-- Every planted node is that of a subtree, but for the span of the root. -/
theorem node_at (h : Rooted source t f g root) {m : Nat} (h1 : root ≤ m)
    (h2 : m < root + t.count) :
    ∃ t' text span, g.node m = { grown source t' text m with span := some span } := by
  have ht := count_eq t
  by_cases hm : m = root
  · subst hm
    obtain ⟨text, -, hg⟩ := h.top
    exact ⟨t, text, _, hg⟩
  · obtain ⟨t', ht', -⟩ := h.trees.at (m := m) (by omega) (by omega)
    obtain ⟨text, -, hg⟩ := ht'.here
    exact ⟨t', text, (t'.start, t'.stop), hg⟩

/-- Every slot of a planted node has a field. -/
theorem length_fields (h : Rooted source t f g root) {m : Nat} (hm : g.Below root m) :
    (g.node m).fields.length = (g.node m).children.length := by
  obtain ⟨h1, h2⟩ := h.branches.below_iff.1 hm
  obtain ⟨t', text, span, hn⟩ := h.node_at h1 h2
  simp [hn, grown]

/-- Right after planting, the root is pristine. -/
theorem isPristine (h : Rooted source t f g root) : g.isPristine root = true := by
  rw [Forest.isPristine_iff h.branches.acyclic]
  intro m hm
  obtain ⟨h1, h2⟩ := h.branches.below_iff.1 hm
  obtain ⟨t', text, span, hg⟩ := h.node_at h1 h2
  rw [hg]
  simp [Node.isModified, grown]

end Rooted

end Retouch.SyntaxTree
