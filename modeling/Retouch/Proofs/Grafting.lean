import Retouch.Proofs.Descent

/-!
# Trees in a forest

Nothing keeps a node from standing in several slots. A node is the root of a tree if all nodes
below it are there, none stands in two slots and the root itself in none. Putting new nodes in the
place of one child gives a tree again, if they share no node with the old tree and with each other
(`Fits`) and are the roots of trees (`Trees`); the child replaced may be among them
(`IsTree.graft`).
-/

namespace Retouch.Forest

/-- Below the node no node occurs twice. -/
structure IsTree (f : Forest) (n : NodeId) : Prop where
  inRange : ∀ x, f.Below n x → x < f.size
  nodup : ∀ x, f.Below n x → (f.node x).children.Nodup
  holder : ∀ x y c, f.Below n x → f.Below n y → c ∈ (f.node x).children →
    c ∈ (f.node y).children → x = y
  root : ∀ x, f.Below n x → n ∉ (f.node x).children

/-- No node lies below both. -/
def Apart (f : Forest) (m n : NodeId) : Prop :=
  ∀ x, f.Below m x → ¬ f.Below n x

/-- Nodes fit in the place of the child `old` in the tree below `root`: they are distinct, and each
is the child itself or shares no node with this tree and with the others. -/
structure Fits (f : Forest) (root old : NodeId) (nodes : List NodeId) : Prop where
  nodup : nodes.Nodup
  fresh : ∀ m ∈ nodes, m ≠ old → f.Apart m root
  apart : ∀ m ∈ nodes, ∀ m' ∈ nodes, m ≠ old → m' ≠ old → m ≠ m' → f.Apart m m'

/-- Below each of the nodes but `old` no node occurs twice. -/
def Trees (f : Forest) (old : NodeId) (nodes : List NodeId) : Prop :=
  ∀ m ∈ nodes, m ≠ old → f.IsTree m

/-- The forest `f'` is `f` with nodes in the place of the child in slot `i` of `h`. -/
structure Spliced (f f' : Forest) (h i : Nat) (nodes : List NodeId) : Prop where
  size : f.size ≤ f'.size
  here : (f'.node h).children = (f.node h).children.take i ++ nodes ++
    (f.node h).children.drop (i + 1)
  others : ∀ x, x ≠ h → (f'.node x).children = (f.node x).children

/-- What lies below a node stays there if no child list below it changes. -/
theorem below_of_children {f f' : Forest} {n : NodeId}
    (h : ∀ x, f.Below n x → (f'.node x).children = (f.node x).children) {x : NodeId}
    (hx : f'.Below n x) : f.Below n x := by
  induction hx with
  | refl => exact .refl n
  | tail _ hc ih => exact ih.child (h _ ih ▸ hc)

theorem acyclic_of_children {f f' : Forest} {n : NodeId} (hn : f.Acyclic n)
    (h : ∀ x, f.Below n x → (f'.node x).children = (f.node x).children) : f'.Acyclic n := by
  have hway : ∀ {x y}, f.Below n x → Relation.TransGen f'.Holds x y →
      Relation.TransGen f.Holds x y := by
    intro x y hx hxy
    induction hxy with
    | single hc => exact .single (show _ ∈ (f.node x).children from h x hx ▸ hc)
    | tail _ hc ih =>
      exact ih.tail (show _ ∈ (f.node _).children from h _ (hx.trans ih.to_reflTransGen) ▸ hc)
  intro x hx hxx
  have hx := below_of_children h hx
  exact hn x hx (hway hx hxx)

/-- A tree stays one if no child list below its root changes. -/
theorem IsTree.of_children {f f' : Forest} {n : NodeId} (ht : f.IsTree n)
    (hsize : f.size ≤ f'.size)
    (h : ∀ x, f.Below n x → (f'.node x).children = (f.node x).children) : f'.IsTree n where
  inRange x hx := (ht.inRange x (below_of_children h hx)).trans_le hsize
  nodup x hx := by
    have hx := below_of_children h hx
    rw [h x hx]
    exact ht.nodup x hx
  holder x y c hx hy hcx hcy := by
    have hx := below_of_children h hx
    have hy := below_of_children h hy
    rw [h x hx] at hcx
    rw [h y hy] at hcy
    exact ht.holder x y c hx hy hcx hcy
  root x hx := by
    have hx := below_of_children h hx
    rw [h x hx]
    exact ht.root x hx

/-- What lies below a node is in every list of nodes that holds it and the children of its
members. -/
theorem below_mem {f : Forest} {n : NodeId} (nodes : List NodeId) (hn : n ∈ nodes)
    (hclosed : ∀ x ∈ nodes, ∀ c ∈ (f.node x).children, c ∈ nodes) {x : NodeId}
    (hx : f.Below n x) : x ∈ nodes := by
  induction hx with
  | refl => exact hn
  | tail _ hc ih => exact hclosed _ ih _ hc

/-- A tree is recognized by a look at the nodes of such a list. -/
theorem IsTree.of_closed {f : Forest} {n : NodeId} (nodes : List NodeId) (hn : n ∈ nodes)
    (hclosed : ∀ x ∈ nodes, ∀ c ∈ (f.node x).children, c ∈ nodes)
    (hrange : ∀ x ∈ nodes, x < f.size) (hnodup : ∀ x ∈ nodes, (f.node x).children.Nodup)
    (hholder : ∀ x ∈ nodes, ∀ y ∈ nodes, ∀ c ∈ (f.node x).children,
      c ∈ (f.node y).children → x = y)
    (hroot : ∀ x ∈ nodes, n ∉ (f.node x).children) : f.IsTree n where
  inRange x hx := hrange x (below_mem nodes hn hclosed hx)
  nodup x hx := hnodup x (below_mem nodes hn hclosed hx)
  holder x y c hx hy hcx hcy :=
    hholder x (below_mem nodes hn hclosed hx) y (below_mem nodes hn hclosed hy) c hcx hcy
  root x hx := hroot x (below_mem nodes hn hclosed hx)

/-- Two nodes are apart if such lists for them have nothing in common. -/
theorem apart_of_closed {f : Forest} {m n : NodeId} (below below' : List NodeId) (hm : m ∈ below)
    (hclosed : ∀ x ∈ below, ∀ c ∈ (f.node x).children, c ∈ below) (hn : n ∈ below')
    (hclosed' : ∀ x ∈ below', ∀ c ∈ (f.node x).children, c ∈ below')
    (hdis : ∀ x ∈ below, x ∉ below') : f.Apart m n :=
  fun _ hx hx' => hdis _ (below_mem below hm hclosed hx) (below_mem below' hn hclosed' hx')

section Graft

variable {f f' : Forest} {root h i old : Nat} {nodes : List NodeId}

/-- A spliced list holds no item twice if neither part does and the new items are new. -/
theorem nodup_splice {items new : List NodeId} {i old : Nat} (hi : items[i]? = some old)
    (hitems : items.Nodup) (hnew : new.Nodup) (hdis : ∀ m ∈ new, m ≠ old → m ∉ items) :
    (items.take i ++ new ++ items.drop (i + 1)).Nodup := by
  have hold := Slot.not_mem_take_drop hi hitems
  rw [← Slot.take_append_cons_drop hi, List.nodup_append, List.nodup_cons] at hitems
  obtain ⟨htake, ⟨-, hdrop⟩, hcross⟩ := hitems
  have hout : ∀ m ∈ new, m ∉ items.take i ∧ m ∉ items.drop (i + 1) := by
    intro m hm
    by_cases hmo : m = old
    · exact hmo ▸ hold
    · have := hdis m hm hmo
      exact ⟨fun ht => this (List.mem_of_mem_take ht), fun hd => this (List.mem_of_mem_drop hd)⟩
  rw [List.nodup_append, List.nodup_append]
  refine ⟨⟨htake, hnew, ?_⟩, hdrop, ?_⟩
  · rintro a ha b hb rfl
    exact (hout a hb).1 ha
  · rintro a ha b hb rfl
    rcases List.mem_append.1 ha with ha | ha
    · exact hcross a ha a (List.mem_cons_of_mem _ hb) rfl
    · exact (hout a ha).2 hb

variable (hh : f.Below root h) (hi : (f.node h).children[i]? = some old)
  (hs : Spliced f f' h i nodes)

include hh hi hs

/-- Where an edge of the spliced forest comes from: the old tree, a new tree, or the splice. -/
theorem edge_spliced {x c : NodeId} (hc : c ∈ (f'.node x).children)
    (hx : f.Below root x ∨ ∃ m ∈ nodes, m ≠ old ∧ f.Below m x) :
    (f.Below root x ∧ c ∈ (f.node x).children) ∨
      (∃ m ∈ nodes, m ≠ old ∧ f.Below m x ∧ c ∈ (f.node x).children) ∨
      (x = h ∧ c ∈ nodes ∧ c ≠ old) := by
  by_cases hxh : x = h
  · subst hxh
    rw [hs.here, List.mem_append, List.mem_append] at hc
    rcases hc with (hc | hc) | hc
    · exact .inl ⟨hh, List.mem_of_mem_take hc⟩
    · by_cases hco : c = old
      · exact .inl ⟨hh, hco ▸ List.mem_of_getElem? hi⟩
      · exact .inr (.inr ⟨rfl, hc, hco⟩)
    · exact .inl ⟨hh, List.mem_of_mem_drop hc⟩
  · rw [hs.others x hxh] at hc
    rcases hx with hx | ⟨m, hm, hmo, hx⟩
    · exact .inl ⟨hx, hc⟩
    · exact .inr (.inl ⟨m, hm, hmo, hx, hc⟩)

/-- A node below the root was below it before, or is one of a new tree. -/
theorem below_spliced {x : NodeId} (hx : f'.Below root x) :
    f.Below root x ∨ ∃ m ∈ nodes, m ≠ old ∧ f.Below m x := by
  induction hx with
  | refl => exact .inl (.refl root)
  | tail _ hc ih =>
    rcases edge_spliced hh hi hs hc ih with ⟨hx, hc⟩ | ⟨m, hm, hmo, hx, hc⟩ | ⟨-, hc, hco⟩
    · exact .inl (hx.child hc)
    · exact .inr ⟨m, hm, hmo, hx.child hc⟩
    · exact .inr ⟨_, hc, hco, .refl _⟩

variable (ht : f.IsTree root) (hfit : f.Fits root old nodes) (hnew : f.Trees old nodes)

include hfit hnew

/-- The root of a new tree is held by the spliced node only. -/
theorem holder_of_new {c y : NodeId} (hc : c ∈ nodes) (hco : c ≠ old) (hy : f'.Below root y)
    (hcy : c ∈ (f'.node y).children) : y = h := by
  rcases edge_spliced hh hi hs hcy (below_spliced hh hi hs hy) with
    ⟨hy, hcy⟩ | ⟨m, hm, hmo, hy, hcy⟩ | ⟨hy, -, -⟩
  · exact absurd (hy.child hcy) (hfit.fresh c hc hco c (.refl c))
  · by_cases hmc : m = c
    · subst hmc
      exact absurd hcy ((hnew m hm hmo).root y hy)
    · exact absurd (.refl c) (hfit.apart m hm c hc hmo hco hmc c (hy.child hcy))
  · exact hy

include ht

theorem holder_spliced {x y c : NodeId} (hx : f'.Below root x) (hy : f'.Below root y)
    (hcx : c ∈ (f'.node x).children) (hcy : c ∈ (f'.node y).children) : x = y := by
  rcases edge_spliced hh hi hs hcx (below_spliced hh hi hs hx) with
    ⟨hx', hcx'⟩ | ⟨m, hm, hmo, hx', hcx'⟩ | ⟨rfl, hc, hco⟩
  · rcases edge_spliced hh hi hs hcy (below_spliced hh hi hs hy) with
      ⟨hy', hcy'⟩ | ⟨m, hm, hmo, hy', hcy'⟩ | ⟨rfl, hc, hco⟩
    · exact ht.holder x y c hx' hy' hcx' hcy'
    · exact absurd (hx'.child hcx') (hfit.fresh m hm hmo c (hy'.child hcy'))
    · exact holder_of_new hh hi hs hfit hnew hc hco hx hcx
  · rcases edge_spliced hh hi hs hcy (below_spliced hh hi hs hy) with
      ⟨hy', hcy'⟩ | ⟨m', hm', hmo', hy', hcy'⟩ | ⟨rfl, hc, hco⟩
    · exact absurd (hy'.child hcy') (hfit.fresh m hm hmo c (hx'.child hcx'))
    · by_cases hmm : m = m'
      · subst hmm
        exact (hnew m hm hmo).holder x y c hx' hy' hcx' hcy'
      · exact absurd (hy'.child hcy') (hfit.apart m hm m' hm' hmo hmo' hmm c (hx'.child hcx'))
    · exact holder_of_new hh hi hs hfit hnew hc hco hx hcx
  · exact (holder_of_new hh hi hs hfit hnew hc hco hy hcy).symm

/-- Trees put in the place of a child make a tree of the whole again. -/
theorem IsTree.graft : f'.IsTree root where
  inRange x hx := by
    refine lt_of_lt_of_le ?_ hs.size
    rcases below_spliced hh hi hs hx with hx | ⟨m, hm, hmo, hx⟩
    · exact ht.inRange x hx
    · exact (hnew m hm hmo).inRange x hx
  nodup x hx := by
    by_cases hxh : x = h
    · subst hxh
      rw [hs.here]
      refine nodup_splice hi (ht.nodup x hh) hfit.nodup fun m hm hmo hmx => ?_
      exact hfit.fresh m hm hmo m (.refl m) (hh.child hmx)
    · rw [hs.others x hxh]
      rcases below_spliced hh hi hs hx with hx | ⟨m, hm, hmo, hx⟩
      · exact ht.nodup x hx
      · exact (hnew m hm hmo).nodup x hx
  holder _ _ _ hx hy hcx hcy := holder_spliced hh hi hs ht hfit hnew hx hy hcx hcy
  root x hx hc := by
    rcases edge_spliced hh hi hs hc (below_spliced hh hi hs hx) with
      ⟨hx, hc⟩ | ⟨m, hm, hmo, hx, hc⟩ | ⟨-, hc, hco⟩
    · exact ht.root x hx hc
    · exact hfit.fresh m hm hmo root (hx.child hc) (.refl root)
    · exact hfit.fresh root hc hco root (.refl root) (.refl root)

end Graft

end Retouch.Forest
