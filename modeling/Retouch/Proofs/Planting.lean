import Retouch.Outcome
import Retouch.Proofs.Descent
import Retouch.SyntaxTree

/-!
# Planting a syntax tree

Planting keeps a stack of open nodes. It numbers the nodes of a tree in document order from the
size of the forest, gives every node its children in the order of the tree, and marks it when the
last of them is complete (`plantFrom_all`). So a planted tree stands in the forest node for node,
and nothing else is touched (`plant_ok`); every node is as its snapshot says.
-/

namespace Retouch

namespace SyntaxTree

/-! ## Numbering -/

/-- The roots of trees whose nodes are numbered from `n` on in document order. -/
def rootIds : NodeId → List SyntaxTree → List NodeId
  | _, [] => []
  | n, t :: ts => n :: rootIds (n + t.count) ts

@[simp]
theorem length_rootIds : ∀ (n : NodeId) (ts : List SyntaxTree), (rootIds n ts).length = ts.length
  | _, [] => rfl
  | n, t :: ts => by simp [rootIds, length_rootIds (n + t.count) ts]

theorem count_pos (t : SyntaxTree) : 0 < t.count := by
  rw [count_eq]
  omega

theorem mem_rootIds : ∀ {n m : Nat} {ts : List SyntaxTree}, m ∈ rootIds n ts →
    n ≤ m ∧ m < n + countAll ts
  | _, _, [], h => by simp [rootIds] at h
  | n, m, t :: ts, h => by
    have ht := t.count_pos
    simp only [rootIds, List.mem_cons, countAll] at h ⊢
    rcases h with rfl | h
    · omega
    · have := mem_rootIds h
      omega

theorem nodup_rootIds : ∀ (n : Nat) (ts : List SyntaxTree), (rootIds n ts).Nodup
  | _, [] => List.nodup_nil
  | n, t :: ts => by
    have ht := t.count_pos
    refine List.nodup_cons.2 ⟨fun h => ?_, nodup_rootIds (n + t.count) ts⟩
    have := mem_rootIds h
    omega

mutual

/-- `Q` holds of a tree at `n` and of all its subtrees, their nodes numbered in document order. -/
def Throughout (Q : SyntaxTree → NodeId → Prop) : SyntaxTree → NodeId → Prop
  | .node kind start stop named missing field children, n =>
    Q (.node kind start stop named missing field children) n ∧ ThroughoutAll Q children (n + 1)

/-- `Q` holds throughout trees one after the other. -/
def ThroughoutAll (Q : SyntaxTree → NodeId → Prop) : List SyntaxTree → NodeId → Prop
  | [], _ => True
  | t :: ts, n => Throughout Q t n ∧ ThroughoutAll Q ts (n + t.count)

end

theorem throughout_iff {Q : SyntaxTree → NodeId → Prop} {t : SyntaxTree} {n : NodeId} :
    Throughout Q t n ↔ Q t n ∧ ThroughoutAll Q t.children (n + 1) := by
  cases t
  rfl

theorem Throughout.here {Q : SyntaxTree → NodeId → Prop} {t : SyntaxTree} {n : NodeId}
    (h : Throughout Q t n) : Q t n :=
  (throughout_iff.1 h).1

theorem Throughout.below {Q : SyntaxTree → NodeId → Prop} {t : SyntaxTree} {n : NodeId}
    (h : Throughout Q t n) : ThroughoutAll Q t.children (n + 1) :=
  (throughout_iff.1 h).2

/-- What holds throughout trees may be weakened at each of their nodes. -/
theorem ThroughoutAll.imp {Q Q' : SyntaxTree → NodeId → Prop} : ∀ {ts : List SyntaxTree} {n : Nat},
    (∀ t m, n ≤ m → m < n + countAll ts → Q t m → Q' t m) → ThroughoutAll Q ts n →
    ThroughoutAll Q' ts n
  | [], _, _, _ => trivial
  | t :: ts, n, hq, h => by
    have ht := count_eq t
    simp only [countAll] at hq
    refine ⟨throughout_iff.2 ⟨hq t n (by omega) (by omega) h.1.here, ?_⟩, ?_⟩
    · exact ThroughoutAll.imp (fun t m h1 h2 => hq t m (by omega) (by omega)) h.1.below
    · exact ThroughoutAll.imp (fun t m h1 h2 => hq t m (by omega) (by omega)) h.2
termination_by ts => countAll ts
decreasing_by
  all_goals
    simp only [countAll]
    omega

theorem Throughout.imp {Q Q' : SyntaxTree → NodeId → Prop} {t : SyntaxTree} {n : Nat}
    (hq : ∀ t' m, n ≤ m → m < n + t.count → Q t' m → Q' t' m) (h : Throughout Q t n) :
    Throughout Q' t n := by
  have ht := count_eq t
  exact throughout_iff.2 ⟨hq t n (by omega) (by omega) h.here,
    h.below.imp fun t' m h1 h2 => hq t' m (by omega) (by omega)⟩

/-- Every number within trees is that of a subtree. -/
theorem ThroughoutAll.at {Q : SyntaxTree → NodeId → Prop} : ∀ {ts : List SyntaxTree} {n m : Nat},
    ThroughoutAll Q ts n → n ≤ m → m < n + countAll ts →
    ∃ t, Throughout Q t m ∧ m + t.count ≤ n + countAll ts
  | [], _, _, _, _, h2 => by simp only [countAll] at h2; omega
  | t :: ts, n, m, h, h1, h2 => by
    have ht := count_eq t
    simp only [countAll] at h2 ⊢
    by_cases hm : m = n
    · subst hm
      exact ⟨t, h.1, by omega⟩
    by_cases hlt : m < n + t.count
    · obtain ⟨t', ht', hle⟩ := ThroughoutAll.at (m := m) h.1.below (by omega) (by omega)
      exact ⟨t', ht', by omega⟩
    · obtain ⟨t', ht', hle⟩ := ThroughoutAll.at (m := m) h.2 (by omega) (by omega)
      exact ⟨t', ht', by omega⟩
termination_by ts => countAll ts
decreasing_by
  all_goals
    simp only [countAll]
    omega

theorem Throughout.at {Q : SyntaxTree → NodeId → Prop} {t : SyntaxTree} {n m : Nat}
    (h : Throughout Q t n) (h1 : n ≤ m) (h2 : m < n + t.count) :
    ∃ t', Throughout Q t' m ∧ m + t'.count ≤ n + t.count := by
  have := ThroughoutAll.at (show ThroughoutAll Q [t] n from ⟨h, trivial⟩) h1
    (by simpa [countAll] using h2)
  simpa [countAll] using this

theorem ThroughoutAll.roots {Q : SyntaxTree → NodeId → Prop} : ∀ {ts : List SyntaxTree} {n : Nat},
    ThroughoutAll Q ts n → List.Forall₂ (fun c t => Q t c) (rootIds n ts) ts
  | [], _, _ => .nil
  | _ :: _, _, h => .cons h.1.here h.2.roots

/-! ## The stack -/

mutual

/-- The slices of all leaves can be decoded. -/
def Decodes (source : Source) : SyntaxTree → Prop
  | .node kind start stop named missing field children =>
    (∃ text, leafText source (.node kind start stop named missing field children) = .ok text) ∧
      DecodesAll source children

/-- The slices of all leaves of several trees can be decoded. -/
def DecodesAll (source : Source) : List SyntaxTree → Prop
  | [] => True
  | t :: ts => Decodes source t ∧ DecodesAll source ts

end

theorem decodes_iff {source : Source} {t : SyntaxTree} : Decodes source t ↔
    (∃ text, t.leafText source = .ok text) ∧ DecodesAll source t.children := by
  cases t
  rfl

/-- The node of a tree at `n`, with all its children and marked. -/
def grown (source : Source) (t : SyntaxTree) (text : Option String) (n : NodeId) : Node where
  kind := t.kind
  text := text
  children := rootIds (n + 1) t.children
  fields := t.children.map field
  named := t.named
  span := some (t.start, t.stop)
  source := some source
  snapshot := some ⟨text, rootIds (n + 1) t.children⟩

/-- The tree's node stands at `n`. -/
def Stands (source : Source) (g : Forest) (t : SyntaxTree) (n : NodeId) : Prop :=
  ∃ text, t.leafText source = .ok text ∧ g.node n = grown source t text n

theorem bare_eq_ok {source : Source} {t : SyntaxTree} {node : Node} :
    t.bare source = .ok node ↔ ∃ text, t.leafText source = .ok text ∧
      node = ⟨t.kind, text, [], [], t.named, some (t.start, t.stop), some source, none⟩ := by
  unfold bare
  rw [bind_eq_ok]
  simp only [pure_eq_ok, Except.ok.injEq, eq_comm]

/-- A tree below an open node is planted by opening it in turn. -/
theorem plantFrom_tree {source : Source} {t : SyntaxTree} {node : Node}
    (hb : bare source t = .ok node) (owner : NodeId) (ts : List SyntaxTree)
    (rest : List (NodeId × List SyntaxTree)) (f : Forest) :
    plantFrom source ((owner, t :: ts) :: rest) f =
      plantFrom source ((f.size, t.children) :: (owner, ts) :: rest)
        ((f.add node).2.modify owner fun x => x.withChild f.size t.field) := by
  rw [plantFrom, hb, ok_bind]
  simp only [Forest.add]
  split_ifs with hc
  · rw [List.isEmpty_iff.1 hc, plantFrom]
  · rfl

theorem decodes_of_plantFrom {source : Source} {g : Forest} : ∀ {ts : List SyntaxTree}
    {owner : NodeId} {rest : List (NodeId × List SyntaxTree)} {f : Forest},
    plantFrom source ((owner, ts) :: rest) f = .ok g →
    DecodesAll source ts ∧ ∃ f', plantFrom source rest f' = .ok g
  | [], owner, rest, f, h => ⟨trivial, _, by rwa [plantFrom] at h⟩
  | t :: ts, owner, rest, f, h => by
    have ht := count_eq t
    obtain ⟨node, hb⟩ : ∃ node, bare source t = .ok node := by
      rw [plantFrom] at h
      obtain ⟨node, hb, -⟩ := bind_eq_ok.1 h
      exact ⟨node, hb⟩
    obtain ⟨text, htext, -⟩ := bare_eq_ok.1 hb
    rw [plantFrom_tree hb] at h
    obtain ⟨h1, f1, h⟩ := decodes_of_plantFrom h
    obtain ⟨h2, h⟩ := decodes_of_plantFrom h
    exact ⟨⟨decodes_iff.2 ⟨⟨text, htext⟩, h1⟩, h2⟩, h⟩
termination_by ts => countAll ts
decreasing_by
  all_goals
    simp only [countAll]
    omega

/-- `f'` is `f` with trees planted below the open node `owner`. -/
structure Planted (source : Source) (f f' : Forest) (owner : Nat) (ts : List SyntaxTree) :
    Prop where
  size : f'.size = f.size + countAll ts
  others : ∀ m : Nat, m < f.size → m ≠ owner → f'.node m = f.node m
  owner : f'.node owner = { f.node owner with
    children := (f.node owner).children ++ rootIds f.size ts
    fields := (f.node owner).fields ++ ts.map field }
  trees : ThroughoutAll (Stands source f') ts f.size

/-- An open node gets its remaining trees as children, and is then closed. -/
theorem plantFrom_all {source : Source} : ∀ {ts : List SyntaxTree} {owner : Nat} {f : Forest},
    DecodesAll source ts → owner < f.size →
    ∃ f', Planted source f f' owner ts ∧ ∀ rest, plantFrom source ((owner, ts) :: rest) f =
      plantFrom source rest (f'.modify owner Node.marked)
  | [], owner, f, _, _ => by
    refine ⟨f, ⟨by simp [countAll], fun _ _ _ => rfl, by simp [rootIds], trivial⟩, fun rest => ?_⟩
    rw [plantFrom]
  | t :: ts, owner, f, hd, ho => by
    have ht := count_eq t
    obtain ⟨⟨text, htext⟩, hdt⟩ := decodes_iff.1 hd.1
    -- the tree's node is added and given to the owner, then its own children are planted below it
    set node : Node := ⟨t.kind, text, [], [], t.named, some (t.start, t.stop), some source, none⟩
      with hnode
    have hb : t.bare source = .ok node := bare_eq_ok.2 ⟨text, htext, hnode⟩
    set f2 := (f.add node).2.modify owner fun x => x.withChild f.size t.field with hf2
    have hs2 : f2.size = f.size + 1 := by simp [hf2]
    have hn2 : ∀ m : Nat, f2.node m = if m = owner then (f.node owner).withChild f.size t.field
        else if m = f.size then node else f.node m := by
      intro m
      rw [hf2, Forest.node_modify _ _ _ _ (by rw [Forest.size_add]; omega), Forest.node_add]
      by_cases h1 : m = owner
      · subst h1
        rw [if_pos rfl, if_pos rfl, if_neg (by omega)]
      · rw [if_neg h1, if_neg h1]
        simp [hnode, Node.padded]
    obtain ⟨f3, hp3, hr3⟩ := plantFrom_all (f := f2) hdt (show f.size < f2.size by omega)
    set f4 := f3.modify f.size Node.marked with hf4
    have hs4 : f4.size = f.size + t.count := by
      rw [hf4, Forest.size_modify, hp3.size]
      omega
    have hn4 : ∀ m : Nat, f4.node m =
        if m = f.size then (f3.node m).marked else f3.node m := fun m =>
      Forest.node_modify _ _ _ _ (by rw [hp3.size]; omega)
    obtain ⟨f5, hp5, hr5⟩ := plantFrom_all (f := f4) hd.2 (show owner < f4.size by omega)
    have hold : ∀ m : Nat, m < f.size → m ≠ owner → f4.node m = f.node m := by
      intro m hm hmo
      rw [hn4, if_neg (by omega), hp3.others m (by omega) (by omega), hn2, if_neg hmo,
        if_neg (by omega)]
    refine ⟨f5, ⟨?_, ?_, ?_, ?_, ?_⟩, fun rest => ?_⟩
    · rw [hp5.size, countAll]
      omega
    · intro m hm hmo
      rw [hp5.others m (by omega) hmo, hold m hm hmo]
    · have ho4 : f4.node owner = (f.node owner).withChild f.size t.field := by
        rw [hn4, if_neg (by omega), hp3.others owner (by omega) (by omega), hn2, if_pos rfl]
      rw [hp5.owner, ho4, hs4]
      simp [Node.withChild, rootIds]
    · refine throughout_iff.2 ⟨⟨text, htext, ?_⟩, ?_⟩
      · rw [hp5.others f.size (by omega) (by omega), hn4, if_pos rfl, hp3.owner, hn2,
          if_neg (by omega), if_pos rfl, hs2]
        simp [hnode, Node.marked, grown]
      · rw [← hs2]
        refine hp3.trees.imp ?_
        rintro t' m h1 h2 ⟨text', ht', hg⟩
        refine ⟨text', ht', ?_⟩
        rw [hp5.others m (by omega) (by omega), hn4, if_neg (by omega), hg]
    · rw [← hs4]
      exact hp5.trees
    · rw [plantFrom_tree hb, hr3, hr5]
termination_by ts => countAll ts
decreasing_by
  all_goals
    simp only [countAll]
    omega

/-- Planting succeeds if and only if the slices of all leaves can be decoded. -/
theorem decodes_of_plant {source : Source} {t : SyntaxTree} {f g : Forest} {root : NodeId}
    (h : t.plant source f = .ok (root, g)) : Decodes source t := by
  unfold plant at h
  obtain ⟨node, hb, h⟩ := bind_eq_ok.1 h
  obtain ⟨text, htext, -⟩ := bare_eq_ok.1 hb
  simp only at h
  obtain ⟨g', hg, -⟩ := bind_eq_ok.1 h
  exact decodes_iff.2 ⟨⟨text, htext⟩, (decodes_of_plantFrom hg).1⟩

/-- A planted tree stands at the end of the forest, its root with the span of the whole source; the
nodes that were there are as they were. -/
structure Rooted (source : Source) (t : SyntaxTree) (f g : Forest) (root : Nat) : Prop where
  root_eq : root = f.size
  size : g.size = f.size + t.count
  others : ∀ m : Nat, m < f.size → g.node m = f.node m
  top : ∃ text, t.leafText source = .ok text ∧ g.node root =
    { grown source t text root with span := some (0, (source.size : Int)) }
  trees : ThroughoutAll (Stands source g) t.children (root + 1)

theorem plant_ok {source : Source} {t : SyntaxTree} (h : Decodes source t) (f : Forest) :
    ∃ g, t.plant source f = .ok (f.size, g) ∧ Rooted source t f g f.size := by
  have ht := count_eq t
  obtain ⟨⟨text, htext⟩, hdt⟩ := decodes_iff.1 h
  set node : Node := ⟨t.kind, text, [], [], t.named, some (0, (source.size : Int)), some source,
    none⟩ with hnode
  set f1 := (f.add node).2 with hf1
  have hs1 : f1.size = f.size + 1 := by simp [hf1]
  have hn1 : ∀ m : Nat, f1.node m = if m = f.size then node else f.node m := by
    intro m
    rw [hf1, Forest.node_add]
    simp [hnode, Node.padded]
  obtain ⟨f2, hp, hr⟩ := plantFrom_all (f := f1) hdt (show f.size < f1.size by omega)
  have hlt : f.size < f2.size := by
    rw [hp.size]
    omega
  refine ⟨f2.modify f.size Node.marked, ?_, rfl, ?_, ?_, ⟨text, htext, ?_⟩, ?_⟩
  · have hb := bare_eq_ok.2 ⟨text, htext, rfl⟩
    unfold plant
    rw [hb, ok_bind]
    simp only [Forest.add]
    have := hr []
    rw [plantFrom, hf1] at this
    simp only [Forest.add] at this
    rw [this]
    rfl
  · rw [Forest.size_modify, hp.size]
    omega
  · intro m hm
    rw [Forest.node_modify _ _ _ _ hlt, if_neg (by omega), hp.others m (by omega) (by omega), hn1,
      if_neg (by omega)]
  · rw [Forest.node_modify _ _ _ _ hlt, if_pos rfl, hp.owner, hn1, if_pos rfl, hs1]
    simp [hnode, Node.marked, grown]
  · rw [← hs1]
    refine hp.trees.imp ?_
    rintro t' m h1 h2 ⟨text', ht', hg⟩
    refine ⟨text', ht', ?_⟩
    rw [Forest.node_modify _ _ _ _ hlt, if_neg (by omega), hg]

/-- What planting gives is the tree, standing at the end of the forest. -/
theorem rooted_of_plant {source : Source} {t : SyntaxTree} {f g : Forest} {root : NodeId}
    (h : t.plant source f = .ok (root, g)) : Rooted source t f g root := by
  obtain ⟨g', hg, hr⟩ := plant_ok (decodes_of_plant h) f
  rw [h, Except.ok.injEq, Prod.mk.injEq] at hg
  obtain ⟨rfl, rfl⟩ := hg
  exact hr

end SyntaxTree

end Retouch
