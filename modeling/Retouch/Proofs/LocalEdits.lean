import Retouch.Proofs.Changes
import Retouch.Proofs.LiveSlots
import Retouch.Proofs.Parsing

/-!
# Edits stay local

A run over a parse looks at paths, gives leaves another text and replaces nodes through their paths
by one fresh node each, where no edited node lies within another; other trees and paths may come up
in between. All along, the nodes of the parse are those of the parser with the changes applied
(`Edited`). So the root prints as the source in which the span of each edited node is given over to
what was put there, in document order, and every other byte is kept.
-/

namespace Retouch

/-- Nodes and paths have come, and those that were there are as they were. -/
structure Document.Extends (d d' : Document) : Prop where
  nodes : d.forest.size ≤ d'.forest.size
  node : ∀ m, m < d.forest.size → d'.forest.node m = d.forest.node m
  paths : d.paths.size ≤ d'.paths.size
  path : ∀ p, p < d.paths.size → d'.path p = d.path p

/-- A node that is made is new. -/
theorem Document.extends_make (d : Document) (x : Node) : d.Extends ((Act.make x).after d) := by
  rw [Act.after, Edit.perform_addNode]
  refine ⟨by simp, fun m hm => ?_, le_rfl, fun _ _ => rfl⟩
  rw [Forest.node_add, if_neg (Nat.ne_of_lt hm)]

/-- A tree that is parsed is new. -/
theorem Work.extends_parse {η : Type} {parser : ParserId} {text : String} {w w' : Workspace η}
    {root : NodeId} (h : perform (Work.parse parser text) w = (.ok root, w')) :
    w.document.Extends w'.document := by
  obtain ⟨stamp, parsed, g, -, hplant, hd⟩ := Work.parse_eq_ok h
  have hg := SyntaxTree.rooted_of_plant hplant
  rw [hd]
  exact ⟨by simp [hg.size], hg.others, le_rfl, fun _ _ => rfl⟩

theorem Document.Attached.extends {d d' : Document} {roots : List PathId} (h : d.Attached roots)
    (he : d.Extends d')
    (hc : ∀ p, d.Live roots p → (d'.nodeAt p).children = (d.nodeAt p).children) :
    d'.Attached roots := by
  have hpath : ∀ {p}, d.Live roots p → d'.path p = d.path p :=
    fun hp => he.path _ (h.inRange _ hp)
  have hlive : ∀ {p}, d'.Live roots p → d.Live roots p := by
    intro p hp
    induction hp with
    | root hr => exact .root hr
    | entry _ hm ih => exact .entry ih (hpath ih ▸ hm)
  refine ⟨fun p hp => ?_, fun r hr => ?_, fun p hp => ?_, fun p k q hp hm => ?_⟩
  · exact (h.inRange p (hlive hp)).trans_le he.paths
  · rw [hpath (.root hr)]
    exact h.root r hr
  · rw [hpath (hlive hp)]
    exact h.keys p (hlive hp)
  · have hp := hlive hp
    rw [hpath hp] at hm
    obtain ⟨i, rfl, hf⟩ := h.entry p k q hp hm
    have hq := hpath (.entry hp hm)
    exact ⟨i, rfl, by rw [hq, hf.parent], by rw [hq, hf.slot], by rw [hc p hp, hq, hf.held]⟩

/-- A node of the parse below `root` other than the root, apart from all nodes changed already. -/
structure Editable (g : Forest) (root : NodeId) (changes : List (NodeId × Change)) (n : NodeId) :
    Prop where
  below : g.Below root n
  ne_root : n ≠ root
  apart : ∀ e ∈ changes, ¬ g.Below e.1 n ∧ ¬ g.Below n e.1

/-- A node with all that is below it is in the forest and shares nothing with the parse. -/
structure Fresh (g : Forest) (root : NodeId) (f : Forest) (m : NodeId) : Prop where
  acyclic : f.Acyclic m
  inRange : ∀ x, f.Below m x → x < f.size
  apart : ∀ x, f.Below m x → ¬ g.Below root x

theorem Fresh.of_children {g f f' : Forest} {root m : NodeId} (h : Fresh g root f m)
    (hsize : f.size ≤ f'.size)
    (hc : ∀ x, f.Below m x → (f'.node x).children = (f.node x).children) : Fresh g root f' m where
  acyclic := Forest.acyclic_of_children h.acyclic hc
  inRange x hx := (h.inRange x (Forest.below_of_children hc hx)).trans_le hsize
  apart x hx := h.apart x (Forest.below_of_children hc hx)

/-- A fresh node is recognized by a look at the nodes below it and those of the parse. -/
theorem Fresh.of_closed {g f : Forest} {root m : NodeId} (nodes old : List NodeId)
    (hac : f.Acyclic m) (hm : m ∈ nodes)
    (hclosed : ∀ x ∈ nodes, ∀ c ∈ (f.node x).children, c ∈ nodes)
    (hrange : ∀ x ∈ nodes, x < f.size) (hroot : root ∈ old)
    (hold : ∀ x ∈ old, ∀ c ∈ (g.node x).children, c ∈ old) (hapart : ∀ x ∈ nodes, x ∉ old) :
    Fresh g root f m where
  acyclic := hac
  inRange x hx := hrange x (Forest.below_mem nodes hm hclosed hx)
  apart x hx hx' := hapart x (Forest.below_mem nodes hm hclosed hx)
    (Forest.below_mem old hroot hold hx')

/-- Runs from a new root path on `root`, with the changes made so far. -/
inductive Retouched (root : NodeId) (d₀ : Document) : List (NodeId × Change) → Document → Prop
  | start : Retouched root d₀ [] (d₀.addRoot root).2
  | elsewhere {changes : List (NodeId × Change)} {d d' : Document} :
    Retouched root d₀ changes d → d.Extends d' → Retouched root d₀ changes d'
  | look {changes : List (NodeId × Change)} {d : Document} {a : Act} :
    Retouched root d₀ changes d → a.Looks → a.Allowed d₀.paths.size d →
    Retouched root d₀ changes (a.after d)
  | assign {changes : List (NodeId × Change)} {d : Document} {n : NodeId} (u : String) :
    Retouched root d₀ changes d → Editable d₀.forest root changes n →
    (d₀.forest.node n).children = [] →
    Retouched root d₀ ((n, .text u) :: changes)
      (perform (Edit.modifyNode n fun x => { x with text := some u }) d).2
  | replace {changes : List (NodeId × Change)} {d : Document} {q : PathId} {m : NodeId} :
    Retouched root d₀ changes d → d.Live [d₀.paths.size] q →
    Editable d₀.forest root changes (d.path q).node → Fresh d₀.forest root d.forest m →
    Retouched root d₀ (((d.path q).node, .node m) :: changes) ((Act.replace q [m]).after d)

namespace Change

variable {changes : List (NodeId × Change)} {n : NodeId}

theorem target_cases (c : NodeId) :
    target changes c = c ∨ (c, .node (target changes c)) ∈ changes := by
  unfold target
  split
  · rename_i m hm
    exact .inr (Assoc.mem_of_get? hm)
  · exact .inl rfl

theorem target_cons_of_ne {c : NodeId} (hc : c ≠ n) (x : Change) :
    target ((n, x) :: changes) c = target changes c := by
  simp [target, Assoc.get?, hc.symm]

theorem target_cons_text (hn : Assoc.get? changes n = none) (u : String) :
    target ((n, .text u) :: changes) = target changes := by
  funext c
  by_cases hc : c = n
  · subst hc
    simp [target, Assoc.get?, hn]
  · exact target_cons_of_ne hc _

theorem target_cons_node (m : NodeId) : target ((n, .node m) :: changes) n = m := by
  simp [target, Assoc.get?]

/-- A new text is seen at its node only. -/
theorem apply_cons_text (hn : Assoc.get? changes n = none) (u : String) (k : NodeId) (x : Node) :
    apply ((n, .text u) :: changes) k x =
      if k = n then { apply changes k x with text := some u } else apply changes k x := by
  unfold apply
  rw [target_cons_text hn]
  by_cases hk : k = n
  · simp [Assoc.get?, hk]
  · simp [Assoc.get?, hk, Ne.symm hk]

/-- A node put in the place of another is seen by its holder only. -/
theorem apply_cons_node (hn : Assoc.get? changes n = none) (m k : NodeId) (x : Node) :
    apply ((n, .node m) :: changes) k x =
      { apply changes k x with children := x.children.map (target ((n, .node m) :: changes)) } := by
  unfold apply
  by_cases hk : k = n
  · simp [Assoc.get?, hk, hn]
  · simp [Assoc.get?, Ne.symm hk]

theorem map_target_of_not_mem {items : List NodeId} (hn : n ∉ items) (x : Change) :
    items.map (target ((n, x) :: changes)) = items.map (target changes) := by
  refine List.map_congr_left fun c hc => target_cons_of_ne ?_ x
  rintro rfl
  exact hn hc

/-- In the list of the holder the new node takes the slot of the old. -/
theorem map_target_splice {items : List NodeId} {i : Nat} (hi : items[i]? = some n)
    (hitems : items.Nodup) (m : NodeId) :
    items.map (target ((n, .node m) :: changes)) =
      (items.map (target changes)).take i ++ [m] ++ (items.map (target changes)).drop (i + 1) := by
  obtain ⟨htake, hdrop⟩ := Slot.not_mem_take_drop hi hitems
  rw [← List.map_take, ← List.map_drop, ← map_target_of_not_mem htake (.node m),
    ← map_target_of_not_mem hdrop (.node m)]
  nth_rewrite 1 [← Slot.take_append_cons_drop hi]
  rw [List.map_append, List.map_cons, target_cons_node, List.append_assoc, List.singleton_append]

end Change

theorem Editable.get?_eq_none {g : Forest} {root n : NodeId} {changes : List (NodeId × Change)}
    (h : Editable g root changes n) : Assoc.get? changes n = none := by
  rcases hc : Assoc.get? changes n with _ | c
  · rfl
  · exact absurd (.refl n) (h.apart _ (Assoc.mem_of_get? hc)).1

/-! ## What a run keeps -/

/-- The nodes of the parse in the forest `g` are as changes leave them, and what was put in the
place of some is still fresh. -/
structure Edited (g : Forest) (root : NodeId) (r : PathId) (changes : List (NodeId × Change))
    (d : Document) : Prop where
  attached : d.Attached [r]
  top : (d.path r).node = root
  size : g.size ≤ d.forest.size
  node : ∀ m, g.Below root m → d.forest.node m = Change.apply changes m (g.node m)
  fresh : ∀ n m, (n, .node m) ∈ changes → Fresh g root d.forest m
  editable : ∀ e ∈ changes, g.Below root e.1 ∧ e.1 ≠ root
  leaf : ∀ n u, (n, .text u) ∈ changes → (g.node n).children = []
  apart : ∀ e ∈ changes, ∀ e' ∈ changes, g.Below e.1 e'.1 → e = e'

namespace Edited

variable {g : Forest} {root : NodeId} {r : PathId} {changes : List (NodeId × Change)}
  {d : Document}

/-- A slot of the parse holds what it held, or what was put there. -/
theorem slot (h : Edited g root r changes d) {x c : NodeId} {i : Nat} (hx : g.Below root x)
    (hi : (d.forest.node x).children[i]? = some c) :
    ∃ c₀, (g.node x).children[i]? = some c₀ ∧ (c = c₀ ∨ (c₀, .node c) ∈ changes) := by
  rw [h.node x hx] at hi
  simp only [Change.apply, List.getElem?_map, Option.map_eq_some_iff] at hi
  obtain ⟨c₀, hc₀, rfl⟩ := hi
  exact ⟨c₀, hc₀, Change.target_cases c₀⟩

/-- A node of the parse still stands in the slot it had. -/
theorem slot_old (h : Edited g root r changes d) {x c : NodeId} {i : Nat} (hx : g.Below root x)
    (hi : (d.forest.node x).children[i]? = some c) (hc : g.Below root c) :
    (g.node x).children[i]? = some c := by
  obtain ⟨c₀, hc₀, rfl | hm⟩ := h.slot hx hi
  · exact hc₀
  · exact absurd hc ((h.fresh c₀ c hm).apart c (.refl c))

/-- What lies below the root is of the parse, or of something put there. -/
theorem below_cases (h : Edited g root r changes d) {x : NodeId} (hx : d.forest.Below root x) :
    g.Below root x ∨ ∃ n m, (n, .node m) ∈ changes ∧ d.forest.Below m x := by
  induction hx with
  | refl => exact .inl (.refl root)
  | tail _ hc ih =>
    rcases ih with hx | ⟨n, m, hm, hx⟩
    · obtain ⟨i, hi⟩ := List.mem_iff_getElem?.1 hc
      obtain ⟨c₀, hc₀, rfl | hm⟩ := h.slot hx hi
      · exact .inl (hx.child (List.mem_of_getElem? hc₀))
      · exact .inr ⟨c₀, _, hm, .refl _⟩
    · exact .inr ⟨n, m, hm, hx.child hc⟩

theorem up (h : Edited g root r changes d) {x c : NodeId} (hx : d.forest.Below root x)
    (hc : c ∈ (d.forest.node x).children) (hw : g.Below root c) : g.Below root x := by
  rcases h.below_cases hx with hx | ⟨n, m, hm, hx⟩
  · exact hx
  · exact absurd hw ((h.fresh n m hm).apart c (hx.child hc))

theorem inRange (h : Edited g root r changes d) (ht : g.IsTree root) {x : NodeId}
    (hx : d.forest.Below root x) : x < d.forest.size := by
  rcases h.below_cases hx with hx | ⟨n, m, hm, hx⟩
  · exact (ht.inRange x hx).trans_le h.size
  · exact (h.fresh n m hm).inRange x hx

/-- Every node of the parse stands in one slot at most. -/
theorem single (h : Edited g root r changes d) (ht : g.IsTree root) :
    Document.Single d.forest [root] (g.Below root) where
  up t hmem x c hx hc hw := by
    cases List.mem_singleton.1 hmem
    exact h.up hx hc hw
  slot t hmem t' hmem' x y c i j hx hy hw hi hj := by
    cases List.mem_singleton.1 hmem
    cases List.mem_singleton.1 hmem'
    have hgx := h.up hx (List.mem_of_getElem? hi) hw
    have hgy := h.up hy (List.mem_of_getElem? hj) hw
    exact ht.single.slot root hmem root hmem' x y c i j hgx hgy trivial (h.slot_old hgx hi hw)
      (h.slot_old hgy hj hw)
  top t hmem t' hmem' x hx hw hc := by
    cases List.mem_singleton.1 hmem
    cases List.mem_singleton.1 hmem'
    have hgx := h.up hx hc hw
    obtain ⟨i, hi⟩ := List.mem_iff_getElem?.1 hc
    exact ht.root x hgx (List.mem_of_getElem? (h.slot_old hgx hi hw))

/-- No two live paths stand on one node of the parse. -/
theorem eq_of_node_eq (h : Edited g root r changes d) (ht : g.IsTree root) {p q : PathId}
    (hp : d.Live [r] p) (hq : d.Live [r] q) (hn : (d.path p).node = (d.path q).node)
    (hw : g.Below root (d.path p).node) : p = q := by
  have hs : Document.Single d.forest ([r].map fun r => (d.path r).node) (g.Below root) := by
    rw [List.map_singleton, h.top]
    exact h.single ht
  refine h.attached.eq_of_node_eq hs ?_ hp hq hn hw
  intro a ha b hb _
  rw [List.mem_singleton.1 ha, List.mem_singleton.1 hb]

theorem live_below (h : Edited g root r changes d) {p : PathId} (hp : d.Live [r] p) :
    d.forest.Below root (d.path p).node := by
  obtain ⟨r', hr', hb⟩ := h.attached.below hp
  cases List.mem_singleton.1 hr'
  exact h.top ▸ hb

/-! ### Steps -/

theorem start {d₀ : Document} (ht : d₀.forest.IsTree root) :
    Edited d₀.forest root d₀.paths.size [] (d₀.addRoot root).2 where
  attached := (Kept.start ht).attached
  top := by rw [Document.addRoot, Document.path_push, if_pos rfl]
  size := le_rfl
  node m _ := by
    have htarget : Change.target [] = id := rfl
    simp [Change.apply, htarget, Document.addRoot]
  fresh := by simp
  editable := by simp
  leaf := by simp
  apart := by simp

theorem looked (h : Edited g root r changes d) {d' : Document} (hl : Edit.Looked [r] d d') :
    Edited g root r changes d' where
  attached := hl.attached
  top := (hl.grown.node r (h.attached.inRange r (.root List.mem_cons_self))).trans h.top
  size := hl.grown.forest ▸ h.size
  node := hl.grown.forest ▸ h.node
  fresh := hl.grown.forest ▸ h.fresh
  editable := h.editable
  leaf := h.leaf
  apart := h.apart

theorem extended (h : Edited g root r changes d) (ht : g.IsTree root) {d' : Document}
    (he : d.Extends d') : Edited g root r changes d' where
  attached := h.attached.extends he fun p hp => by
    unfold Document.nodeAt
    rw [he.path p (h.attached.inRange p hp), he.node _ (h.inRange ht (h.live_below hp))]
  top := by rw [he.path r (h.attached.inRange r (.root List.mem_cons_self)), h.top]
  size := h.size.trans he.nodes
  node m hm := by rw [he.node m ((ht.inRange m hm).trans_le h.size), h.node m hm]
  fresh n m hm := (h.fresh n m hm).of_children he.nodes fun x hx => by
    rw [he.node x ((h.fresh n m hm).inRange x hx)]
  editable := h.editable
  leaf := h.leaf
  apart := h.apart

section Edit

variable {n : NodeId} (h : Edited g root r changes d) (he : Editable g root changes n)

include h he

theorem editable_cons (c : Change) : ∀ e ∈ (n, c) :: changes, g.Below root e.1 ∧ e.1 ≠ root :=
  List.forall_mem_cons.2 ⟨⟨he.below, he.ne_root⟩, h.editable⟩

theorem apart_cons (c : Change) :
    ∀ e ∈ (n, c) :: changes, ∀ e' ∈ (n, c) :: changes, g.Below e.1 e'.1 → e = e' := by
  intro e hm e' hm' hb
  rcases List.mem_cons.1 hm with rfl | hm <;> rcases List.mem_cons.1 hm' with rfl | hm'
  · rfl
  · exact absurd hb (he.apart e' hm').2
  · exact absurd hb (he.apart e hm).1
  · exact h.apart e hm e' hm' hb

theorem assign (ht : g.IsTree root) (hleaf : (g.node n).children = []) (u : String) :
    Edited g root r ((n, .text u) :: changes)
      (d.modifyNode n fun x => { x with text := some u }) := by
  have hnode : ∀ x, (d.modifyNode n fun x => { x with text := some u }).forest.node x =
      if x = n then { d.forest.node x with text := some u } else d.forest.node x := fun x =>
    Forest.node_modify _ _ _ _ ((ht.inRange n he.below).trans_le h.size)
  have hchildren : ∀ x,
      ((d.modifyNode n fun x => { x with text := some u }).forest.node x).children =
        (d.forest.node x).children := by
    intro x
    rw [hnode]
    split_ifs <;> rfl
  have hsize : (d.modifyNode n fun x => { x with text := some u }).forest.size = d.forest.size :=
    Forest.size_modify _ _ _
  refine ⟨h.attached.of_children rfl fun p _ => hchildren _, h.top, hsize ▸ h.size, fun m hm => ?_,
    fun n' m hm => ?_, h.editable_cons he _, fun n' u' hm => ?_, h.apart_cons he _⟩
  · rw [hnode, Change.apply_cons_text he.get?_eq_none, h.node m hm]
  · rcases List.mem_cons.1 hm with hm | hm
    · cases hm
    · exact (h.fresh n' m hm).of_children hsize.ge fun x _ => hchildren x
  · rcases List.mem_cons.1 hm with hm | hm
    · cases hm
      exact hleaf
    · exact h.leaf n' u' hm

/-- The forest after one node was put in the place of another. -/
theorem spliced (ht : g.IsTree root) {p i : Nat} {field : Option String} {m : NodeId}
    (hgp : g.Below root (d.path p).node) (hgi : (g.node (d.path p).node).children[i]? = some n)
    (hfield : (d.nodeAt p).fields[i]? = some field) (x : NodeId) (hx : g.Below root x) :
    (d.spliceSlot p i field [m]).forest.node x =
      Change.apply ((n, .node m) :: changes) x (g.node x) := by
  have hi : i < (d.nodeAt p).children.length := by
    unfold Document.nodeAt
    rw [h.node _ hgp]
    simpa [Change.apply] using (List.getElem?_eq_some_iff.1 hgi).1
  rw [Document.node_spliceSlot hi, Change.apply_cons_node he.get?_eq_none]
  split_ifs with hxp
  · subst hxp
    have hsame : Slot.splice (d.forest.node (d.path p).node).fields i ((i : Int) + 1)
        (List.replicate [m].length field) = (d.forest.node (d.path p).node).fields :=
      Slot.splice_self hfield
    rw [hsame, h.node _ hgp, Change.map_target_splice hgi (ht.nodup _ hgp)]
    rfl
  · have hnot : n ∉ (g.node x).children := fun hm =>
      hxp (ht.holder x _ n hx hgp hm (List.mem_of_getElem? hgi))
    rw [h.node x hx, Change.map_target_of_not_mem hnot]
    rfl

end Edit

/-- Replacing a node of the parse by a fresh one succeeds, and is one change more. -/
theorem replace (h : Edited g root r changes d) (ht : g.IsTree root)
    (hfields : ∀ m, g.Below root m → (g.node m).fields.length = (g.node m).children.length)
    {q : PathId} {m : NodeId} (hq : d.Live [r] q) (he : Editable g root changes (d.path q).node)
    (hfresh : Fresh g root d.forest m) :
    ∃ d', perform (Edit.replace q [m]) d = (.ok [q], d') ∧
      Edited g root r (((d.path q).node, .node m) :: changes) d' := by
  rcases h.attached.cases hq with hr | ⟨p, i, hp, hmem, hfill⟩
  · cases List.mem_singleton.1 hr
    exact absurd h.top he.ne_root
  have hgp : g.Below root (d.path p).node :=
    h.up (h.live_below hp) (List.mem_of_getElem? hfill.held) he.below
  have hgi : (g.node (d.path p).node).children[i]? = some (d.path q).node :=
    h.slot_old hgp hfill.held he.below
  have hone : ∀ y, d.Live [r] y → (d.path y).node = (d.path p).node → y = p :=
    fun y hy hn => h.eq_of_node_eq ht hy hp hn (hn ▸ hgp)
  have hrq : r ≠ q := by
    rintro rfl
    exact he.ne_root h.top
  obtain ⟨field, hfield⟩ : ∃ field, (d.nodeAt p).fields[i]? = some field := by
    unfold Document.nodeAt
    rw [h.node _ hgp]
    have := (List.getElem?_eq_some_iff.1 hgi).1
    exact ⟨_, List.getElem?_eq_getElem (by rw [← hfields _ hgp] at this; exact this)⟩
  have hnode := h.spliced he ht hgp hgi hfield (m := m)
  have hfar : ∀ x, ¬ g.Below root x →
      (d.spliceSlot p i field [m]).forest.node x = d.forest.node x := by
    intro x hx
    rw [Document.node_spliceSlot (List.getElem?_eq_some_iff.1 hfill.held).1, if_neg]
    rintro rfl
    exact hx hgp
  have hstays : ∀ {m'}, Fresh g root d.forest m' →
      Fresh g root (d.spliceSlot p i field [m]).forest m' := fun hf =>
    hf.of_children (Document.size_forest_spliceSlot _ _ _ _ _).ge fun x hx => by
      rw [hfar x (hf.apart x hx)]
  obtain ⟨qs, d', hd', hlen, hl⟩ := Edit.replace_cons h.attached hp hmem hone hfield m []
  obtain rfl := List.length_eq_zero_iff.1 hlen
  refine ⟨d', hd', looked ?_ hl⟩
  refine ⟨h.attached.seat hp hmem hone, ?_, ?_, ?_, ?_, h.editable_cons he _, ?_,
    h.apart_cons he _⟩
  · rw [Document.node_seated h.attached hp hmem hrq, h.top]
  · rw [Document.forest_enter, Document.forest_retarget, Document.size_forest_spliceSlot]
    exact h.size
  · rw [Document.forest_enter, Document.forest_retarget]
    exact hnode
  · intro n' m' hm
    rw [Document.forest_enter, Document.forest_retarget]
    rcases List.mem_cons.1 hm with hm | hm
    · cases hm
      exact hstays hfresh
    · exact hstays (h.fresh n' m' hm)
  · intro n' u hm
    rcases List.mem_cons.1 hm with hm | hm
    · cases hm
    · exact h.leaf n' u hm

/-- The invariant holds throughout a run. -/
theorem of_retouched {d₀ : Document} (ht : d₀.forest.IsTree root)
    (hfields : ∀ m, d₀.forest.Below root m →
      (d₀.forest.node m).fields.length = (d₀.forest.node m).children.length)
    (hd : Retouched root d₀ changes d) : Edited d₀.forest root d₀.paths.size changes d := by
  induction hd with
  | start => exact start ht
  | elsewhere _ hext ih => exact ih.extended ht hext
  | look _ hl ha ih => exact ih.looked (Act.looked ih.attached hl ha)
  | assign u _ he hleaf ih => exact ih.assign he ht hleaf u
  | replace _ hq he hfresh ih =>
    obtain ⟨d', hd', h⟩ := ih.replace ht hfields hq he hfresh
    simp only [Act.after, hd']
    exact h

/-- What the changes are written as is laid over the parse. -/
theorem carried (h : Edited g root r changes d) {p : Printer} {base : Source}
    {texts : NodeId → String}
    (hw : ∀ n c, (n, c) ∈ changes → c.print p d.forest (some base) = .ok (texts n)) :
    Carried p g d.forest root changes texts where
  node := h.node
  leaf n u hn := by
    have hm := Assoc.mem_of_get? hn
    have := hw n _ hm
    simp only [Change.print, Except.ok.injEq] at this
    exact ⟨h.leaf n u hm, this.symm⟩
  fresh n m hn := by
    have hm := Assoc.mem_of_get? hn
    have hac := (h.fresh n m hm).acyclic
    exact ⟨hac, (p.print_some hac base).symm.trans (hw n _ hm)⟩
  apart n n' hn hn' hb := by
    obtain ⟨c, hc⟩ := Option.isSome_iff_exists.1 hn
    obtain ⟨c', hc'⟩ := Option.isSome_iff_exists.1 hn'
    exact congrArg Prod.fst (h.apart _ (Assoc.mem_of_get? hc) _ (Assoc.mem_of_get? hc') hb)

end Edited

/-- Over the parse of a text from a well-formed tree, edits of nodes apart from each other, one for
one, print as the text with their spans given over to what was put there, in document order; and as
long as nodes are fresh and apart, they can be put in. -/
theorem print_retouched {η : Type} {parser : ParserId} {text : String} {w w' : Workspace η}
    {root : NodeId} (hparse : perform (Work.parse parser text) w = (.ok root, w'))
    (hgrammar : ∀ parsed, w.grammars.tree (w.parsers.getD parser default).language text =
      some parsed → parsed.root.WellFormed text)
    {changes : List (NodeId × Change)} {d : Document}
    (hd : Retouched root w'.document changes d) (p : Printer) (texts : NodeId → String)
    (hw : ∀ n c, (n, c) ∈ changes →
      c.print p d.forest (d.forest.node root).source = .ok (texts n)) :
    (∃ out, p.print d.forest root (d.forest.node root).source = .ok out ∧
      out.toUTF8 = patched text.toUTF8 0 text.toUTF8.size
        (patchesFor w'.document.forest changes texts (w'.document.forest.walk root))) ∧
    InOrder 0 text.toUTF8.size
      (patchesFor w'.document.forest changes texts (w'.document.forest.walk root)) ∧
    (∀ e ∈ changes, e.1 ∈ w'.document.forest.walk root) ∧
    (∀ q m, d.Live [w'.document.paths.size] q →
      Editable w'.document.forest root changes (d.path q).node →
      Fresh w'.document.forest root d.forest m →
      (perform (Edit.replace q [m]) d).1 = .ok [q]) := by
  obtain ⟨stamp, parsed, g, htree, hplant, hdoc⟩ := Work.parse_eq_ok hparse
  have hg := SyntaxTree.rooted_of_plant hplant
  have hforest : w'.document.forest = g := by rw [hdoc]
  have ht := hg.isTree
  have hfields : ∀ m, g.Below root m →
      (g.node m).fields.length = (g.node m).children.length := fun _ => hg.length_fields
  rw [← hforest] at ht hfields hg
  have h := Edited.of_retouched ht hfields hd
  have hsource : (d.forest.node root).source = some (.ofText stamp text) := by
    obtain ⟨u, -, htop⟩ := hg.top
    rw [h.node root (.refl root), htop]
    rfl
  rw [hsource] at hw ⊢
  have hroot : Assoc.get? changes root = none := by
    rcases hc : Assoc.get? changes root with _ | c
    · rfl
    · exact absurd rfl (h.editable _ (Assoc.mem_of_get? hc)).2
  have ho := (h.carried hw).overlaid_root hg (hgrammar parsed htree) hroot
  have hin := ho.inOrder
  obtain ⟨out, hout, hbytes⟩ := ho.writes
  rw [SyntaxTree.start_spanning, SyntaxTree.stop_spanning] at hin hbytes
  refine ⟨⟨out, (p.print_some ho.acyclic _).trans hout, hbytes⟩, hin, fun e he => ?_,
    fun q m hq he hf => ?_⟩
  · exact (Forest.mem_walk hg.branches.acyclic).2 (h.editable e he).1
  · obtain ⟨d', hd', -⟩ := h.replace ht hfields hq he hf
    rw [hd']

/-- A sum of two names with blanks around it, or a name in brackets. -/
def sumGrammars : Grammars where
  table := []
  tree _ text := some (if text = "[ü]" then
    ⟨.node "group" 0 4 true false none [.node "[" 0 1 false false none [],
      .node "name" 1 3 true false none [], .node "]" 3 4 false false none []], false⟩
    else ⟨.node "program" 1 6 true false none [.node "name" 1 4 true false none [],
      .node "+" 4 5 false false none [], .node "name" 5 6 true false none []], false⟩)

/-- A workspace with one parser. -/
def sumWorkspace : Workspace Unit :=
  ⟨.empty, .start "" default, sumGrammars, #[⟨"python", true, true⟩], #[], #[], 0, #[]⟩

/-- The sum is parsed. -/
def sumParsed : Workspace Unit :=
  (perform (Work.parse 0 " aé+b ") sumWorkspace).2

/-- A name in brackets is parsed beside a path on the sum. -/
def groupParsed : Workspace Unit :=
  (perform (Work.parse 0 "[ü]")
    { sumParsed with document := (sumParsed.document.addRoot 0).2 }).2

/-- A pair of new leaves is made, and the children of the sum are asked for. -/
def sumMade : Document :=
  (Act.childPaths 0).after ((Act.make (.branch "pair" [8, 9] [])).after
    ((Act.make (.leaf "name" "y" true)).after
      ((Act.make (.leaf "name" "x" true)).after groupParsed.document)))

/-- The sign gets another text. -/
def sumSigned : Document :=
  (perform (Edit.modifyNode 2 fun x => { x with text := some "- " }) sumMade).2

/-- The name in brackets is put in the place of the first name. -/
def sumGrouped : Document :=
  (Act.replace 1 [4]).after sumSigned

/-- The pair is put in the place of the second name. -/
def sumPaired : Document :=
  (Act.replace 3 [10]).after sumGrouped

/-- The children of the sum may be edited, each once. -/
theorem editable_sum {changes : List (NodeId × Change)} {n : NodeId}
    (hn : n ∈ [1, 2, 3]) (hc : ∀ e ∈ changes, e.1 ∈ [1, 2, 3] ∧ e.1 ≠ n) :
    Editable sumParsed.document.forest 0 changes n := by
  have hchild : ∀ n ∈ [1, 2, 3], n ∈ (sumParsed.document.forest.node 0).children := by
    decide +kernel
  have hleaf : ∀ n ∈ [1, 2, 3], (sumParsed.document.forest.node n).children = [] := by
    decide +kernel
  have hbelow : ∀ {n x}, n ∈ [1, 2, 3] → sumParsed.document.forest.Below n x → x = n := by
    intro n x hn hx
    rcases Forest.below_iff.1 hx with rfl | ⟨c, hc, -⟩
    · rfl
    · simp [hleaf n hn] at hc
  refine ⟨(Forest.Below.refl 0).child (hchild n hn), ?_, fun e he => ⟨fun hb => ?_, fun hb => ?_⟩⟩
  · rintro rfl
    revert hn
    decide
  · exact (hc e he).2 (hbelow (hc e he).1 hb).symm
  · exact (hc e he).2 (hbelow hn hb)

theorem retouched_sumPaired : Retouched 0 sumParsed.document
    [(3, .node 10), (1, .node 4), (2, .text "- ")] sumPaired := by
  have hgroup : perform (Work.parse 0 "[ü]")
      { sumParsed with document := (sumParsed.document.addRoot 0).2 } = (.ok 4, groupParsed) :=
    perform_eq_of_toOption (by decide +kernel)
  have hmade : Retouched 0 sumParsed.document [] sumMade := by
    refine .look (.elsewhere (.elsewhere (.elsewhere (.elsewhere .start
      (Work.extends_parse hgroup)) (Document.extends_make _ _)) (Document.extends_make _ _))
      (Document.extends_make _ _)) trivial (Document.Live.root ?_)
    decide +kernel
  have hsigned : Retouched 0 sumParsed.document [(2, .text "- ")] sumSigned :=
    .assign "- " hmade (editable_sum (by decide) (by simp)) (by decide +kernel)
  have hgrouped : Retouched 0 sumParsed.document [(1, .node 4), (2, .text "- ")] sumGrouped := by
    have hn : (sumSigned.path 1).node = 1 := by decide +kernel
    have hfresh : Fresh sumParsed.document.forest 0 sumSigned.forest 4 :=
      Fresh.of_closed [4, 5, 6, 7] [0, 1, 2, 3]
        (Forest.Within.acyclic (k := 2) (show ∀ c ∈ (sumSigned.forest.node 4).children,
          ∀ c' ∈ (sumSigned.forest.node c).children, False by decide +kernel))
        (by decide) (by decide +kernel) (by decide +kernel) (by decide) (by decide +kernel)
        (by decide)
    have := Retouched.replace (q := 1) hsigned
      (.entry (.root (by decide +kernel)) (k := 0) (p := 0) (by decide +kernel))
      (by rw [hn]; exact editable_sum (by decide) (by simp)) hfresh
    rwa [hn] at this
  have hn : (sumGrouped.path 3).node = 3 := by decide +kernel
  have hfresh : Fresh sumParsed.document.forest 0 sumGrouped.forest 10 :=
    Fresh.of_closed [10, 8, 9] [0, 1, 2, 3]
      (Forest.Within.acyclic (k := 2) (show ∀ c ∈ (sumGrouped.forest.node 10).children,
        ∀ c' ∈ (sumGrouped.forest.node c).children, False by decide +kernel))
      (by decide) (by decide +kernel) (by decide +kernel) (by decide) (by decide +kernel)
      (by decide)
  have := Retouched.replace (q := 3) hgrouped
    (.entry (.root (by decide +kernel)) (k := 2) (p := 0) (by decide +kernel))
    (by rw [hn]; exact editable_sum (by decide) (by simp)) hfresh
  rwa [hn] at this

theorem print_retouched_sum :
    perform (Work.parse 0 " aé+b ") sumWorkspace = (.ok 0, sumParsed) ∧
      Retouched 0 sumParsed.document [(3, .node 10), (1, .node 4), (2, .text "- ")] sumPaired ∧
      (⟨"_"⟩ : Printer).print sumPaired.forest 0 (sumPaired.forest.node 0).source =
        .ok " [ü]- x_y " := by
  have hparse : perform (Work.parse 0 " aé+b ") sumWorkspace = (.ok 0, sumParsed) :=
    perform_eq_of_toOption (by decide +kernel)
  obtain ⟨base, hbase⟩ : ∃ base, (sumPaired.forest.node 0).source = some base :=
    Option.isSome_iff_exists.1 (by decide +kernel)
  have hgroup : sumPaired.forest.Acyclic 4 := Forest.Within.acyclic (k := 2)
    (show ∀ c ∈ (sumPaired.forest.node 4).children,
      ∀ c' ∈ (sumPaired.forest.node c).children, False by decide +kernel)
  have hpair : sumPaired.forest.Acyclic 10 := Forest.Within.acyclic (k := 2)
    (show ∀ c ∈ (sumPaired.forest.node 10).children,
      ∀ c' ∈ (sumPaired.forest.node c).children, False by decide +kernel)
  have hw : ∀ n c, (n, c) ∈ [(3, Change.node 10), (1, .node 4), (2, .text "- ")] →
      c.print ⟨"_"⟩ sumPaired.forest (sumPaired.forest.node 0).source =
        .ok (if n = 1 then "[ü]" else if n = 2 then "- " else "x_y") := by
    intro n c hm
    simp only [List.mem_cons, Prod.mk.injEq, List.not_mem_nil, or_false] at hm
    rw [hbase]
    rcases hm with ⟨rfl, rfl⟩ | ⟨rfl, rfl⟩ | ⟨rfl, rfl⟩
    · exact (Printer.print_some _ hpair base).trans (eq_ok_of_toOption (by decide +kernel))
    · exact (Printer.print_some _ hgroup base).trans (eq_ok_of_toOption (by decide +kernel))
    · rfl
  obtain ⟨⟨out, hout, hbytes⟩, -⟩ := print_retouched hparse
    (fun parsed h => by
      cases h
      decide +kernel) retouched_sumPaired ⟨"_"⟩ _ hw
  refine ⟨hparse, retouched_sumPaired, ?_⟩
  have hsame : out.toUTF8 = " [ü]- x_y ".toUTF8 := hbytes.trans (by decide +kernel)
  rw [hout, String.toByteArray_inj.1 hsame]
end Retouch
