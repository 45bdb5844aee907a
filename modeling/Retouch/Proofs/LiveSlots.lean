import Retouch.Proofs.Editing
import Retouch.Proofs.Grafting

/-!
# Slots over whole runs

A run starts from one root path over a tree and goes on with any acts on live paths: making nodes,
asking for children, walking, replacing and pruning, where the nodes that replace another are fresh
and are the roots of trees themselves. Each act keeps the paths attached and the forest below the
root a tree (`Kept.step`). So at any time in a run a live path fills the slot that it names, its
parent knows it under that slot, no other live path does the same, and its node changes by an act on
the path itself only. Fresh nodes that are no trees are not enough (`slot_lost_below_shared`).
-/

namespace Retouch

/-- In a tree every node stands in one slot at most. -/
theorem Forest.IsTree.single {f : Forest} {n : NodeId} (h : f.IsTree n) :
    Document.Single f [n] fun _ => True where
  up _ _ _ _ _ _ _ := trivial
  slot t ht t' ht' x y c i j hx hy _ hi hj := by
    cases List.mem_singleton.1 ht
    cases List.mem_singleton.1 ht'
    cases h.holder x y c hx hy (List.mem_of_getElem? hi) (List.mem_of_getElem? hj)
    have hlt := (List.getElem?_eq_some_iff.1 hi).1
    exact ⟨rfl, (List.getElem?_inj hlt (h.nodup x hx)).1 (hi.trans hj.symm)⟩
  top t ht t' ht' x hx _ := by
    cases List.mem_singleton.1 ht
    cases List.mem_singleton.1 ht'
    exact h.root x hx

/-- What can be done to a document through its paths. -/
inductive Act where
  | make (node : Node)
  | child (p : PathId) (index : Int)
  | childPaths (p : PathId)
  | walk (p : PathId)
  | replace (p : PathId) (nodes : List NodeId)
  | prune (p : PathId)

namespace Act

/-- The document after an act, whether it succeeded or not. -/
def after (d : Document) : Act → Document
  | make node => (perform (Edit.addNode node) d).2
  | child p index => (perform (Edit.child p index) d).2
  | childPaths p => (perform (Edit.childPaths p) d).2
  | walk p => (perform (Edit.walk p) d).2
  | replace p nodes => (perform (Edit.replace p nodes) d).2
  | prune p => (perform (Edit.prune p) d).2

/-- Acts are on paths that are live under the root path `r`, and a node is replaced by fresh
ones. -/
def Allowed (r : PathId) (d : Document) : Act → Prop
  | make _ => True
  | child p _ | childPaths p | walk p | prune p => d.Live [r] p
  | replace p nodes =>
    d.Live [r] p ∧ d.forest.Fits (d.path r).node (d.path p).node nodes

/-- The nodes that replace another are the roots of trees. -/
def GivesTrees (d : Document) : Act → Prop
  | replace p nodes => d.forest.Trees (d.path p).node nodes
  | make _ | child _ _ | childPaths _ | walk _ | prune _ => True

/-- An allowed act that brings in trees only. -/
def Proper (r : PathId) (d : Document) (a : Act) : Prop :=
  a.Allowed r d ∧ a.GivesTrees d

/-- Acts that only look at what is there. -/
def Looks : Act → Prop
  | child _ _ | childPaths _ | walk _ => True
  | make _ | replace _ _ | prune _ => False

theorem looked {r : PathId} {d : Document} {a : Act} (h : d.Attached [r]) (hl : a.Looks)
    (ha : a.Allowed r d) : Edit.Looked [r] d (a.after d) := by
  cases a with
  | child p index => exact Edit.looked_child h ha index
  | childPaths p =>
    obtain ⟨_, d', hd', hl, -⟩ := Edit.childPaths_ok h ha
    simp only [after, hd']
    exact hl
  | walk p =>
    obtain ⟨_, d', hd', hl, -⟩ := Edit.walk_ok h ha
    simp only [after, hd']
    exact hl
  | make | replace | prune => exact hl.elim

end Act

/-- The documents that a run of acts that meet a condition may come to from `d`. -/
inductive Reached (ok : Document → Act → Prop) (d : Document) : Document → Prop
  | start : Reached ok d d
  | step {d' : Document} {a : Act} : Reached ok d d' → ok d' a → Reached ok d (a.after d')

/-- The paths are attached, and the forest below the root path's node is a tree. -/
structure Kept (r : PathId) (d : Document) : Prop where
  attached : d.Attached [r]
  tree : d.forest.IsTree (d.path r).node

namespace Kept

variable {r : PathId} {d : Document}

/-- No two live paths stand on one node. -/
theorem eq_of_node_eq (h : Kept r d) {p q : PathId} (hp : d.Live [r] p) (hq : d.Live [r] q)
    (hn : (d.path p).node = (d.path q).node) : p = q := by
  refine h.attached.eq_of_node_eq h.tree.single ?_ hp hq hn trivial
  intro a ha b hb _
  rw [List.mem_singleton.1 ha, List.mem_singleton.1 hb]

theorem looked (h : Kept r d) {d' : Document} (hl : Edit.Looked [r] d d') : Kept r d' := by
  refine ⟨hl.attached, ?_⟩
  rw [hl.grown.forest, hl.grown.node r (h.attached.inRange r (.root List.mem_cons_self))]
  exact h.tree

/-- The node of a live path lies below that of the root path. -/
theorem below (h : Kept r d) {p : PathId} (hp : d.Live [r] p) :
    d.forest.Below (d.path r).node (d.path p).node := by
  obtain ⟨r', hr', hb⟩ := h.attached.below hp
  cases List.mem_singleton.1 hr'
  exact hb

theorem make (h : Kept r d) (node : Node) :
    Kept r { d with forest := (d.forest.add node).2 } := by
  have hold : ∀ x, d.forest.Below (d.path r).node x →
      (d.forest.add node).2.node x = d.forest.node x := by
    intro x hx
    rw [Forest.node_add, if_neg (Nat.ne_of_lt (h.tree.inRange x hx))]
  have ha : ({ d with forest := (d.forest.add node).2 } : Document).Attached [r] :=
    h.attached.of_children rfl fun p hp => by
      change ((d.forest.add node).2.node (d.path p).node).children = _
      rw [hold _ (h.below hp)]
      rfl
  have ht : (d.forest.add node).2.IsTree (d.path r).node :=
    h.tree.of_children (by simp) fun x hx => by rw [hold x hx]
  exact ⟨ha, ht⟩

/-- The forest after putting nodes in the place of the node of a path known to `p`. -/
theorem spliced {p q i : Nat} {field : Option String} {nodes : List NodeId} (h : Kept r d)
    (hp : d.Live [r] p) (he : ((i : Int), q) ∈ (d.path p).cache)
    (hfit : d.forest.Fits (d.path r).node (d.path q).node nodes)
    (hnew : d.forest.Trees (d.path q).node nodes) :
    (d.spliceSlot p i field nodes).forest.IsTree (d.path r).node := by
  have hq := Document.fills_of_mem h.attached hp he
  have hi := (List.getElem?_eq_some_iff.1 hq.held).1
  refine Forest.IsTree.graft (h.below hp) hq.held ⟨?_, ?_, ?_⟩ h.tree hfit hnew
  · rw [Document.size_forest_spliceSlot]
  · rw [Document.node_spliceSlot hi, if_pos rfl]
  · intro x hx
    rw [Document.node_spliceSlot hi, if_neg hx]

/-- Replacing keeps the invariant and moves no live path to another node but the one replaced, if it
gets one. -/
theorem replace (h : Kept r d) {q : PathId} {nodes : List NodeId} (hq : d.Live [r] q)
    (hfit : d.forest.Fits (d.path r).node (d.path q).node nodes)
    (hnew : d.forest.Trees (d.path q).node nodes) :
    Kept r (perform (Edit.replace q nodes) d).2 ∧ ∀ x, d.Live [r] x → x ≠ q ∨ nodes = [] →
      ((perform (Edit.replace q nodes) d).2.path x).node = (d.path x).node := by
  rcases h.attached.cases hq with hr | ⟨p, i, hp, he, hf⟩
  · have hroot := (h.attached.root q hr).1
    obtain rfl := List.mem_singleton.1 hr
    by_cases hn : ∃ n, nodes = [n]
    · obtain ⟨n, rfl⟩ := hn
      have hpath := Document.path_retarget (h.attached.inRange q hq) n
      rw [Edit.replace_root hroot]
      refine ⟨⟨h.attached.retarget hr n, ?_⟩, fun x _ hx => ?_⟩
      · rw [hpath, if_pos rfl]
        by_cases hno : n = (d.path q).node
        · exact hno ▸ h.tree
        · exact hnew n List.mem_cons_self hno
      · rw [hpath, if_neg (hx.resolve_right (by simp))]
    · rw [Edit.replace_root_refused hroot fun n hn' => hn ⟨n, hn'⟩]
      exact ⟨h, fun _ _ _ => rfl⟩
  · have hone : ∀ y, d.Live [r] y → (d.path y).node = (d.path p).node → y = p :=
      fun y hy hn => h.eq_of_node_eq hy hp hn
    have hrq : r ≠ q := by
      rintro rfl
      cases (h.attached.root r List.mem_cons_self).1.symm.trans hf.parent
    rcases hfield : (d.nodeAt p).fields[i]? with _ | field
    · rw [Edit.replace_refused h.attached hp he hfield]
      exact ⟨h, fun _ _ _ => rfl⟩
    · match nodes, hfit, hnew with
      | [], hfit, hnew =>
        rw [Edit.replace_nil h.attached hp he hfield]
        refine ⟨⟨(h.attached.take hp he hone).mono (List.subset_cons_self _ _), ?_⟩,
          fun x _ _ => Document.node_taken h.attached hp he x⟩
        rw [Document.node_taken h.attached hp he, Document.forest_detach]
        exact h.spliced hp he hfit hnew
      | n :: rest, hfit, hnew =>
        obtain ⟨qs, d', hd', -, hl⟩ := Edit.replace_cons h.attached hp he hone hfield n rest
        have hseat : Kept r
            (((d.spliceSlot p i field (n :: rest)).retarget q n).enter q p i) := by
          refine ⟨h.attached.seat hp he hone, ?_⟩
          rw [Document.node_seated h.attached hp he hrq, Document.forest_enter,
            Document.forest_retarget]
          exact h.spliced hp he hfit hnew
        rw [hd']
        refine ⟨hseat.looked hl, fun x hx hxq => ?_⟩
        rw [hl.grown.node x, Document.node_seated h.attached hp he (hxq.resolve_right (by simp))]
        simpa [Document.enter, Document.retarget] using h.attached.inRange x hx

/-- Pruning is replacing by nothing. -/
theorem perform_prune (q : PathId) :
    (perform (Edit.prune q) d).2 = (perform (Edit.replace q []) d).2 := by
  unfold Edit.prune
  rw [perform_bind_of_ok (perform_get d), perform_bind]
  rcases perform (Edit.replace q []) d with ⟨_ | _, d'⟩ <;> rfl

/-- A proper act keeps the invariant, and only a replacement changes the node of a live path, that
of the path itself. -/
theorem step (h : Kept r d) {a : Act} (ha : a.Proper r d) :
    Kept r (a.after d) ∧ ∀ q, d.Live [r] q → ((a.after d).path q).node ≠ (d.path q).node →
      ∃ nodes, a = .replace q nodes := by
  have hlook : a.Looks → Kept r (a.after d) ∧ ∀ q, d.Live [r] q →
      ((a.after d).path q).node ≠ (d.path q).node → ∃ nodes, a = .replace q nodes := by
    intro hl
    have hl := Act.looked h.attached hl ha.1
    exact ⟨h.looked hl, fun q hq hne => absurd (hl.grown.node q (h.attached.inRange q hq)) hne⟩
  cases a with
  | child | childPaths | walk => exact hlook trivial
  | make node =>
    simp only [Act.after, Edit.perform_addNode]
    exact ⟨h.make node, fun q _ hne => absurd rfl hne⟩
  | replace p nodes =>
    obtain ⟨hk, hnode⟩ := h.replace ha.1.1 ha.1.2 ha.2
    refine ⟨hk, fun q hq hne => ⟨nodes, ?_⟩⟩
    by_cases hqp : q = p
    · rw [hqp]
    · exact absurd (hnode q hq (.inl hqp)) hne
  | prune p =>
    have hfit : d.forest.Fits (d.path r).node (d.path p).node [] :=
      ⟨List.nodup_nil, by simp, by simp⟩
    obtain ⟨hk, hnode⟩ := h.replace ha.1 hfit nofun
    simp only [Act.after, perform_prune]
    exact ⟨hk, fun q hq hne => absurd (hnode q hq (.inr rfl)) hne⟩

theorem start {n : NodeId} (ht : d.forest.IsTree n) : Kept d.paths.size (d.addRoot n).2 := by
  have hpath : (d.addRoot n).2.path d.paths.size = ⟨n, none, none, []⟩ := by
    rw [Document.addRoot, Document.path_push, if_pos rfl]
  have hlive : ∀ {x}, (d.addRoot n).2.Live [d.paths.size] x → x = d.paths.size := by
    intro x hx
    induction hx with
    | root hr => exact List.mem_singleton.1 hr
    | entry _ he ih =>
      rw [ih, hpath] at he
      cases he
  refine ⟨⟨fun p hp => ?_, fun r hr => ?_, fun p hp => ?_, fun p k q hp he => ?_⟩, ?_⟩
  · rw [hlive hp, Document.addRoot]
    simp
  · rw [List.mem_singleton.1 hr, hpath]
    exact ⟨rfl, rfl⟩
  · rw [hlive hp, hpath]
    exact List.nodup_nil
  · rw [hlive hp, hpath] at he
    cases he
  · rw [hpath]
    exact ht

/-- The invariant holds throughout a run. -/
theorem of_reached {d' : Document} (h : Kept r d) (hr : Reached (fun d a => a.Proper r d) d d') :
    Kept r d' := by
  induction hr with
  | start => exact h
  | step _ ha ih => exact (ih.step ha).1

end Kept

/-- At any time in a run of proper acts from a root path over a tree, a live path fills the slot
that it names and its parent knows it under that slot, no two live paths name the same slot of a
node, and whatever is done next, only a replacement on a live path itself gives it another node. -/
theorem live_paths_fill_slots {d₀ d : Document} {n : NodeId} (ht : d₀.forest.IsTree n)
    (hd : Reached (fun d a => a.Proper d₀.paths.size d) (d₀.addRoot n).2 d) :
    (∀ q, d.Live [d₀.paths.size] q → q ≠ d₀.paths.size → ∃ p, ∃ i : Nat,
      (d.path q).parent = some p ∧ (d.path q).slot = some (i : Int) ∧
      (d.nodeAt p).children[i]? = some (d.path q).node ∧
      Assoc.get? (d.path p).cache (i : Int) = some q) ∧
    (∀ q q' p p', d.Live [d₀.paths.size] q → d.Live [d₀.paths.size] q' →
      (d.path q).parent = some p → (d.path q').parent = some p' →
      (d.path p).node = (d.path p').node → (d.path q).slot = (d.path q').slot → q = q') ∧
    (∀ a : Act, a.Proper d₀.paths.size d → ∀ q, d.Live [d₀.paths.size] q →
      ((a.after d).path q).node ≠ (d.path q).node → ∃ nodes, a = .replace q nodes) := by
  have hk : Kept d₀.paths.size d := (Kept.start ht).of_reached hd
  refine ⟨fun q hq hne => ?_, fun q q' p p' hq hq' hp hp' hn hs => ?_, fun a ha => (hk.step ha).2⟩
  · rcases hk.attached.cases hq with hr | ⟨p, i, hp, he, hf⟩
    · exact absurd (List.mem_singleton.1 hr) hne
    · exact ⟨p, i, hf.parent, hf.slot, hf.held,
        (Assoc.get?_eq_some_iff (hk.attached.keys p hp)).2 he⟩
  · obtain ⟨i, hlive, -, hf⟩ := hk.attached.known hq hp
    obtain ⟨i', hlive', -, hf'⟩ := hk.attached.known hq' hp'
    have hi : i = i' := by
      rw [hf.slot, hf'.slot] at hs
      simpa using hs
    cases hk.eq_of_node_eq hlive hlive' hn
    subst hi
    exact hk.eq_of_node_eq hq hq' (Option.some.inj (hf.held.symm.trans hf'.held))

/-- A pair of leaves under node 2, and a leaf apart from them. -/
def pairDocument : Document :=
  ⟨⟨#[.leaf "a" "1" true, .leaf "b" "2" true, .branch "pair" [0, 1] [none, none],
    .leaf "c" "3" true]⟩, #[]⟩

/-- The children are asked for. -/
def pairSeen : Document :=
  (Act.childPaths 0).after (pairDocument.addRoot 2).2

/-- The leaf is put in front of the first child. -/
def pairGrown : Document :=
  (Act.replace 1 [3, 0]).after pairSeen

theorem proper_pairSeen : (Act.replace 1 [3, 0]).Proper 0 pairSeen := by
  have hnew : ∀ m ∈ [3, 0], m ≠ 0 → m = 3 := by decide
  refine ⟨⟨.entry (.root List.mem_cons_self) (k := 0) (by decide), by decide, fun m hm hne => ?_,
    fun m hm m' hm' hne hne' hmm => ?_⟩, fun m hm hne => ?_⟩
  · obtain rfl := hnew m hm hne
    exact Forest.apart_of_closed [3] [2, 0, 1] (by decide) (by decide) (by decide) (by decide)
      (by decide)
  · rw [hnew m hm hne, hnew m' hm' hne'] at hmm
    exact absurd rfl hmm
  · obtain rfl := hnew m hm hne
    exact .of_closed [3] (by decide) (by decide) (by decide) (by decide) (by decide) (by decide)

theorem live_paths_fill_slots_pair :
    Reached (fun d a => a.Proper 0 d) (pairDocument.addRoot 2).2 pairGrown ∧
      pairGrown.Live [0] 2 ∧
      ∃ p, ∃ i : Nat, (pairGrown.path 2).parent = some p ∧
        (pairGrown.path 2).slot = some (i : Int) ∧
        (pairGrown.nodeAt p).children[i]? = some (pairGrown.path 2).node ∧
        Assoc.get? (pairGrown.path p).cache (i : Int) = some 2 := by
  have hrun : Reached (fun d a => a.Proper 0 d) (pairDocument.addRoot 2).2 pairGrown :=
    .step (.step .start ⟨Document.Live.root (by decide), trivial⟩) proper_pairSeen
  have hlive : pairGrown.Live [0] 2 := .entry (.root List.mem_cons_self) (k := 2) (by decide)
  have htree : pairDocument.forest.IsTree 2 :=
    .of_closed [2, 0, 1] (by decide) (by decide) (by decide) (by decide) (by decide) (by decide)
  exact ⟨hrun, hlive, (live_paths_fill_slots htree hrun).1 2 hlive (by decide)⟩

/-- A leaf under node 1, node 1 twice under node 2, and another leaf under the root, node 4. -/
def sharedDocument : Document :=
  ⟨⟨#[.leaf "y" "y" true, .branch "x" [0] [none], .branch "m" [1, 1] [none, none],
    .leaf "a" "a" true, .branch "root" [3] [none]]⟩, #[]⟩

/-- Node 2 takes the place of the root's child, and all paths are asked for. -/
def sharedSeen : Document :=
  (Act.walk 0).after
    ((Act.replace 1 [2]).after ((Act.child 0 0).after (sharedDocument.addRoot 4).2))

/-- The first of the two paths to the leaf is pruned. -/
def sharedCut : Document :=
  (Act.prune 4).after sharedSeen

/-- Where a fresh node holds another twice, two live paths name one slot, and once one of them is
pruned the other names a slot that is not there. -/
theorem slot_lost_below_shared : sharedDocument.forest.IsTree 4 ∧
    Reached (fun d a => a.Allowed 0 d) (sharedDocument.addRoot 4).2 sharedCut ∧
    (sharedSeen.Live [0] 4 ∧ sharedSeen.Live [0] 5 ∧
      (sharedSeen.path 4).parent = some 2 ∧ (sharedSeen.path 5).parent = some 3 ∧
      (sharedSeen.path 2).node = (sharedSeen.path 3).node ∧
      (sharedSeen.path 4).slot = (sharedSeen.path 5).slot) ∧
    sharedCut.Live [0] 5 ∧ (sharedCut.path 5).parent = some 3 ∧ (sharedCut.path 5).slot = some 0 ∧
    (sharedCut.nodeAt 3).children = [] := by
  have htree : sharedDocument.forest.IsTree 4 :=
    .of_closed [4, 3] (by decide) (by decide) (by decide) (by decide) (by decide) (by decide)
  have hasked : Reached (fun d a => a.Allowed 0 d) (sharedDocument.addRoot 4).2
      ((Act.child 0 0).after (sharedDocument.addRoot 4).2) :=
    .step .start (Document.Live.root List.mem_cons_self)
  have hfits : ((Act.child 0 0).after (sharedDocument.addRoot 4).2).forest.Fits 4 3 [2] := by
    refine ⟨by decide, fun m hm _ => ?_, fun m hm m' hm' _ _ hmm => ?_⟩
    · obtain rfl := List.mem_singleton.1 hm
      exact Forest.apart_of_closed [2, 1, 0] [4, 3] (by decide) (by decide) (by decide)
        (by decide) (by decide)
    · exact absurd ((List.mem_singleton.1 hm).trans (List.mem_singleton.1 hm').symm) hmm
  have hlive : ∀ {d : Document}, (0, 1) ∈ (d.path 0).cache → d.Live [0] 1 := fun he =>
    .entry (.root List.mem_cons_self) he
  have hfirst : sharedSeen.Live [0] 4 :=
    .entry (.entry (hlive (by decide)) (k := 0) (q := 2) (by decide)) (k := 0) (by decide)
  have hsecond : sharedSeen.Live [0] 5 :=
    .entry (.entry (hlive (by decide)) (k := 1) (q := 3) (by decide)) (k := 0) (by decide)
  have hleft : sharedCut.Live [0] 5 :=
    .entry (.entry (hlive (by decide)) (k := 1) (q := 3) (by decide)) (k := 0) (by decide)
  have hrun : Reached (fun d a => a.Allowed 0 d) (sharedDocument.addRoot 4).2 sharedCut :=
    .step (.step (.step hasked ⟨hlive (by decide), hfits⟩)
      (Document.Live.root List.mem_cons_self)) hfirst
  exact ⟨htree, hrun, ⟨hfirst, hsecond, by decide, by decide, by decide, by decide⟩, hleft,
    by decide, by decide, by decide⟩

end Retouch
