import Retouch.Proofs.Keyed
import Retouch.Proofs.LiveSlots

/-!
# Replacing through any path

A replacement succeeds where the slot that the path names holds the path's node and has a field. It
cuts the slot out of both lists, and the other paths are where they were or as far behind as there
are more nodes now (`Replaced`). So the caches stay in order over any acts on any paths, also on
those that their parent has forgotten, with paths being built and nodes changed between them
(`Made.keyed`).
-/

namespace Retouch

namespace Document

/-- The document with nodes put in the slot `i` of `y`, which the path `x` names: `x` is taken out,
or seated on the first of the nodes. -/
def reseat (d : Document) (x y : PathId) (i : Int) (field : Option String) :
    List NodeId → Document
  | [] => (d.spliceSlot y i field []).detach x
  | n :: rest => ((d.spliceSlot y i field (n :: rest)).retarget x n).enter x y i

@[simp]
theorem size_reseat (d : Document) (x y : PathId) (i : Int) (field : Option String)
    (nodes : List NodeId) : (d.reseat x y i field nodes).paths.size = d.paths.size := by
  cases nodes <;> simp [reseat, detach, enter, retarget]

theorem forest_reseat (d : Document) (x y : PathId) (i : Int) (field : Option String)
    (nodes : List NodeId) :
    (d.reseat x y i field nodes).forest = (d.spliceSlot y i field nodes).forest := by
  cases nodes <;> rfl

/-- What came of putting nodes in the slot `i` of `y` through the path `x`. The holder's node has the
slot spliced, in its children and in its fields; the path is at large or stands on the first of the
nodes; and a path known to the holder in another slot is known there still, or as far behind as
there are more nodes now, if that slot holds its node. -/
structure Replaced (d : Document) (x y : Nat) (i : Int) (field : Option String)
    (nodes : List NodeId) (d' : Document) : Prop where
  keyed : d'.Keyed
  size : d.paths.size ≤ d'.paths.size
  holder : d'.nodeAt y =
    { d.nodeAt y with
      children := Slot.splice (d.nodeAt y).children i (i + 1) nodes
      fields := Slot.splice (d.nodeAt y).fields i (i + 1) (List.replicate nodes.length field) }
  node : ∀ z < d.paths.size, z ≠ x → (d'.path z).node = (d.path z).node
  parent : ∀ z < d.paths.size, z ≠ x → (d'.path z).parent = (d.path z).parent
  slot : ∀ z < d.paths.size, z ≠ x → (∀ k, (k, z) ∉ (d.path y).cache) →
    (d'.path z).slot = (d.path z).slot
  out : nodes = [] → (d'.path x).parent = none ∧ (d'.path x).slot = none
  seat : ∀ n rest, nodes = n :: rest →
    (d'.path x).node = n ∧ (d'.path x).parent = some y ∧ (d'.path x).slot = some i
  entry : ∀ n rest, nodes = n :: rest → ∀ j : Nat, i = j →
    (d'.nodeAt y).children[j]? = some n → ((j : Int), x) ∈ (d'.path y).cache
  moved : ∀ (k : Int) (z j : Nat), (k, z) ∈ (d.path y).cache → k ≠ i →
    (j : Int) = (if k < i then k else k + ((nodes.length : Int) - 1)) →
    (d'.nodeAt y).children[j]? = some (d.path z).node → ((j : Int), z) ∈ (d'.path y).cache

namespace Keyed

variable {d : Document} {x y : Nat} {i : Int} {field : Option String} {nodes : List NodeId}

section Spliced

variable (h : d.Keyed) (hx : x < d.paths.size) (hy : (d.path x).parent = some y)

include h hx hy

/-- Of the other paths only the holder of the slot has its cache changed. -/
theorem path_reseat_other {z : Nat} (hz : z ≠ x) : (d.reseat x y i field nodes).path z =
    if z = y ∧ nodes ≠ [] then
      { (d.spliceSlot y i field nodes).path z with
        cache := Assoc.insert ((d.spliceSlot y i field nodes).path z).cache i x }
    else (d.spliceSlot y i field nodes).path z := by
  have hr : x < (d.spliceSlot y i field nodes).paths.size := by simpa using hx
  cases nodes with
  | nil => simp [Document.reseat, path_detach hr, hz]
  | cons n rest =>
    have hy' : y < ((d.spliceSlot y i field (n :: rest)).retarget x n).paths.size := by
      simpa [Document.retarget] using h.lt_of_parent hy
    simp [Document.reseat, path_enter hy', path_retarget hr, hz]

theorem keeps_reseat {z : Nat} (hz : z ≠ x) :
    ((d.reseat x y i field nodes).path z).node = (d.path z).node ∧
      ((d.reseat x y i field nodes).path z).parent = (d.path z).parent := by
  obtain ⟨hnode, hparent, -⟩ := (h.indexed (h.lt_of_parent hy)).path_keeps i field nodes z
  rw [h.path_reseat_other hx hy hz]
  split_ifs <;> exact ⟨hnode, hparent⟩

/-- A path that is not among those known to the holder keeps its slot. -/
theorem slot_reseat {z : Nat} (hz : z ≠ x) (hno : ∀ k, (k, z) ∉ (d.path y).cache) :
    ((d.reseat x y i field nodes).path z).slot = (d.path z).slot := by
  have hs : ((d.spliceSlot y i field nodes).path z).slot = (d.path z).slot := by
    rcases h.slot_spliceSlot (h.lt_of_parent hy) i field nodes z with hs | ⟨k, -, hk, -⟩
    · exact hs
    · exact absurd hk (hno k)
  rw [h.path_reseat_other hx hy hz]
  split_ifs <;> exact hs

theorem nodeAt_reseat (hlt : (d.path y).node < d.forest.size) :
    (d.reseat x y i field nodes).nodeAt y =
      { d.nodeAt y with
        children := Slot.splice (d.nodeAt y).children i (i + 1) nodes
        fields := Slot.splice (d.nodeAt y).fields i (i + 1)
          (List.replicate nodes.length field) } := by
  have hne : y ≠ x := Nat.ne_of_lt (h.older x y hy)
  unfold Document.nodeAt
  rw [(h.keeps_reseat hx hy hne).1, forest_reseat, forest_spliceSlot,
    Forest.node_modify _ _ _ _ hlt, if_pos rfl]

/-- What the holder knew in another slot it knows there still, or as far behind as there are more
nodes now. -/
theorem entry_reseat {k : Int} {z : PathId} (hk : (k, z) ∈ (d.path y).cache) (hne : k ≠ i) :
    (if k < i then k else k + ((nodes.length : Int) - 1), z) ∈
      ((d.reseat x y i field nodes).path y).cache := by
  have hmoved : (if k < i then k else k + ((nodes.length : Int) - 1), z) ∈
      ((d.spliceSlot y i field nodes).path y).cache := by
    rw [(h.indexed (h.lt_of_parent hy)).path_owner]
    refine mem_moved.2 ?_
    split_ifs with hlt
    · exact .inl ⟨hlt, hk⟩
    · exact .inr ⟨k, by omega, hk, rfl⟩
  rw [h.path_reseat_other hx hy (Nat.ne_of_lt (h.older x y hy))]
  by_cases hn : nodes = []
  · rwa [if_neg fun hc => hc.2 hn]
  · rw [if_pos ⟨rfl, hn⟩]
    have hlen : 0 < nodes.length := List.length_pos_iff.2 hn
    refine (mem_insert ((h.spliceSlot (h.lt_of_parent hy) i field nodes).keys y)).2
      (.inr ⟨?_, hmoved⟩)
    split_ifs <;> omega

theorem entry_reseat_self (hn : nodes ≠ []) :
    (i, x) ∈ ((d.reseat x y i field nodes).path y).cache := by
  rw [h.path_reseat_other hx hy (Nat.ne_of_lt (h.older x y hy)), if_pos ⟨rfl, hn⟩]
  exact (mem_insert ((h.spliceSlot (h.lt_of_parent hy) i field nodes).keys y)).2
    (.inl ⟨rfl, rfl⟩)

end Spliced

section Seated

variable (h : d.Keyed) (hx : x < d.paths.size) (hy : (d.path x).parent = some y)
  (hi : (d.path x).slot = some i)

include h hy hi

/-- A path hears nothing of a splice of its own slot. -/
theorem path_spliced : (d.spliceSlot y i field nodes).path x = d.path x := by
  refine (h.indexed (h.lt_of_parent hy)).path_other ?_ fun k hk => ?_
  · rintro rfl
    exact Nat.lt_irrefl x (h.older x x hy)
  · exact (Option.some.inj ((h.slot y k x hk).symm.trans hi)).le

include hx

theorem taken : ((d.spliceSlot y i field nodes).detach x).Keyed := by
  have hs := h.spliceSlot (h.lt_of_parent hy) i field nodes
  refine hs.detach (by simpa using hx) fun z k hk => ?_
  have hz := hs.parent z k x hk
  rw [h.path_spliced hy hi, hy] at hz
  cases hz
  rw [(h.indexed (h.lt_of_parent hy)).path_owner] at hk
  rcases mem_moved.1 hk with ⟨hlt, hk⟩ | ⟨l, hlt, hk, -⟩
  · cases (h.slot y k x hk).symm.trans hi
    omega
  · cases (h.slot y l x hk).symm.trans hi
    omega

theorem seated (n : NodeId) :
    (((d.spliceSlot y i field nodes).retarget x n).enter x y i).Keyed := by
  have hr : x < (d.spliceSlot y i field nodes).paths.size := by simpa using hx
  have hpath := path_retarget hr n x
  rw [if_pos rfl, h.path_spliced hy hi] at hpath
  refine ((h.spliceSlot (h.lt_of_parent hy) i field nodes).retarget hr n).enter ?_ ?_ ?_
  · simpa [Document.retarget] using hx
  · rw [hpath]
    exact hy
  · rw [hpath]
    exact hi

theorem reseat : (d.reseat x y i field nodes).Keyed := by
  cases nodes with
  | nil => exact h.taken hx hy hi
  | cons n rest => exact h.seated hx hy hi n

theorem path_reseat_self : (d.reseat x y i field nodes).path x =
    match nodes with
    | [] => { d.path x with parent := none, slot := none }
    | n :: _ => { d.path x with node := n, cache := [] } := by
  have hr : x < (d.spliceSlot y i field nodes).paths.size := by simpa using hx
  cases nodes with
  | nil => simp only [Document.reseat, path_detach hr, if_pos, h.path_spliced hy hi]
  | cons n rest =>
    have hy' : y < ((d.spliceSlot y i field (n :: rest)).retarget x n).paths.size := by
      simpa [Document.retarget] using h.lt_of_parent hy
    have hne : x ≠ y := Nat.ne_of_gt (h.older x y hy)
    simp only [Document.reseat, path_enter hy', if_neg hne, path_retarget hr, if_pos,
      h.path_spliced hy hi]

/-- Looking at the new children keeps what reseating came to. -/
theorem replaced {d' : Document} (hlt : (d.path y).node < d.forest.size) (hk : d'.Keyed)
    (hs : Seen (d.reseat x y i field nodes) d') : Replaced d x y i field nodes d' := by
  have hthere : ∀ {z : Nat}, z < d.paths.size → z < (d.reseat x y i field nodes).paths.size :=
    fun hz => by rwa [size_reseat]
  have hyr := h.lt_of_parent hy
  have hholder := (hs.nodeAt (hthere hyr)).trans (h.nodeAt_reseat hx hy hlt)
  have hself : (d'.path x).node = ((d.reseat x y i field nodes).path x).node ∧
      (d'.path x).parent = ((d.reseat x y i field nodes).path x).parent ∧
      (d'.path x).slot = ((d.reseat x y i field nodes).path x).slot :=
    ⟨hs.node x (hthere hx), hs.parent x (hthere hx), hs.slot x (hthere hx)⟩
  rw [h.path_reseat_self hx hy hi] at hself
  have hnodeAt := hs.nodeAt (hthere hyr)
  refine ⟨hk, by simpa using hs.size, hholder, fun z hz hne => ?_, fun z hz hne => ?_,
    fun z hz hne hno => ?_, ?_, ?_, ?_, ?_⟩
  · rw [hs.node z (hthere hz), (h.keeps_reseat hx hy hne).1]
  · rw [hs.parent z (hthere hz), (h.keeps_reseat hx hy hne).2]
  · rw [hs.slot z (hthere hz), h.slot_reseat hx hy hne hno]
  · rintro rfl
    exact hself.2
  · rintro n rest rfl
    exact ⟨hself.1, hself.2.1.trans hy, hself.2.2.trans hi⟩
  · rintro n rest rfl j rfl hj
    refine hs.entry y (hthere hyr) x (hthere hx) j (h.entry_reseat_self hx hy (by simp)) ?_
    rw [← hnodeAt, hj, h.path_reseat_self hx hy hi]
  · intro k z j hz hne hj hc
    have hzr := h.inRange y k z hz
    have hzx : z ≠ x := by
      rintro rfl
      exact hne (Option.some.inj ((h.slot y k z hz).symm.trans hi))
    have hmoved : ((j : Int), z) ∈ ((d.reseat x y i field nodes).path y).cache := by
      rw [hj]
      exact h.entry_reseat hx hy hz hne
    refine hs.entry y (hthere hyr) z (hthere hzr) j hmoved ?_
    rw [← hnodeAt, hc, (h.keeps_reseat hx hy hzx).1]

/-- A replacement in a slot that holds the path's node and has a field succeeds: the places of the
new nodes that are asked for are there, whichever end the slot is counted from. -/
theorem replace_ok (hheld : Slot.get? (d.nodeAt y).children i = some (d.path x).node)
    (hfield : Slot.get? (d.nodeAt y).fields i = some field) (nodes : List NodeId) :
    ∃ qs d', perform (Edit.replace x nodes) d = (.ok qs, d') ∧
      Replaced d x y i field nodes d' := by
  have hlt : (d.path y).node < d.forest.size := by
    obtain ⟨j, -, hj⟩ := Slot.get?_eq_some_iff.1 hheld
    exact Forest.lt_size_of_mem_children (List.mem_of_getElem? hj)
  have hkeyed : (d.reseat x y i field nodes).Keyed := h.reseat hx hy hi
  rw [Edit.perform_replace_held hy hi hheld hfield]
  cases nodes with
  | nil => exact ⟨_, _, rfl, h.replaced hx hy hi hlt hkeyed (.refl _)⟩
  | cons n rest =>
    have hin := Slot.get?_isSome_iff.1 (Option.isSome_of_eq_some hheld)
    have hlen := Slot.length_splice_succ (d.nodeAt y).children i (n :: rest)
    rw [List.length_cons] at hlen
    have hy' : y < (d.reseat x y i field (n :: rest)).paths.size := by
      simpa using h.lt_of_parent hy
    have hview := Edit.viewed_mapM (fun j : Nat => i + 1 + j) (List.range rest.length) hkeyed hy'
    obtain ⟨qs, d', hqs, -⟩ := Edit.mapM_child_found (fun j : Nat => i + 1 + j)
      (List.range rest.length) hkeyed hy' (by
        intro j hj
        have hj := List.mem_range.1 hj
        rw [h.nodeAt_reseat hx hy hlt, Slot.get?_isSome_iff]
        simp only
        omega)
    rw [hqs] at hview
    exact ⟨x :: qs, d', perform_bind_of_ok hqs _, h.replaced hx hy hi hlt hview.keyed hview.seen⟩

end Seated

theorem replace (h : d.Keyed) (hx : x < d.paths.size) (nodes : List NodeId) :
    (perform (Edit.replace x nodes) d).2.Keyed := by
  rcases Edit.replace_cases x nodes d with ⟨e, hd⟩ | ⟨n, -, -, hd⟩ |
    ⟨y, i, field, hy, hi, hheld, hfield, -⟩
  · rwa [hd]
  · rw [hd]
    exact h.retarget hx n
  · obtain ⟨qs, d', hd, hr⟩ := h.replace_ok hx hy hi hheld hfield nodes
    rw [hd]
    exact hr.keyed

end Keyed

end Document

/-! ## Documents -/

namespace Act

/-- The path that an act is called on. -/
def on? : Act → Option PathId
  | make _ => none
  | child p _ | childPaths p | walk p | replace p _ | prune p => some p

/-- The path whose node an act replaces or takes out. -/
def edited? : Act → Option PathId
  | replace p _ | prune p => some p
  | make _ | child _ _ | childPaths _ | walk _ => none

/-- The act is called on a path that is there. -/
def OnPath (d : Document) (a : Act) : Prop :=
  ∀ x, a.on? = some x → x < d.paths.size

/-- Pruning is replacing by nothing, so every act that edits a path replaces its node. -/
theorem after_of_edited {a : Act} {x : PathId} (ha : a.edited? = some x) (d : Document) :
    ∃ nodes, (nodes = [] ∨ a = .replace x nodes) ∧
      a.after d = (perform (Edit.replace x nodes) d).2 := by
  cases a with
  | replace p nodes =>
    cases ha
    exact ⟨nodes, .inr rfl, rfl⟩
  | prune p =>
    cases ha
    exact ⟨[], .inl rfl, Kept.perform_prune x⟩
  | make | child | childPaths | walk => cases ha

theorem on_of_edited {a : Act} {x : PathId} (ha : a.edited? = some x) : a.on? = some x := by
  cases a with
  | replace | prune => exact ha
  | make | child | childPaths | walk => cases ha

end Act

namespace Document

theorem Keyed.step {d : Document} (h : d.Keyed) {a : Act} (ha : a.OnPath d) :
    (a.after d).Keyed := by
  rcases he : a.edited? with _ | x
  · cases a with
    | make node =>
      simp only [Act.after, Edit.perform_addNode]
      exact h.of_paths rfl
    | child p index => exact (Edit.viewed_child h (ha p rfl) index).keyed
    | childPaths p => exact (Edit.viewed_childPaths h (ha p rfl)).keyed
    | walk p => exact (Edit.viewed_walk h (ha p rfl)).keyed
    | replace | prune => cases he
  · obtain ⟨nodes, -, hd⟩ := Act.after_of_edited he d
    rw [hd]
    exact h.replace (ha x (Act.on_of_edited he)) nodes

theorem Keyed.addPath {d : Document} (h : d.Keyed) (n : NodeId) {parent : Option PathId}
    (hp : ∀ p, parent = some p → p < d.paths.size) (slot : Option Int) :
    (perform (Edit.addPath n parent slot) d).2.Keyed := by
  unfold Edit.addPath
  split
  · exact h.addRoot n
  · rename_i p i
    rw [perform_bind_of_ok (perform_get d)]
    split
    · exact h
    · split_ifs
      · exact h.attach (hp p rfl) n i
      · exact h
  · exact h

/-- The documents that come about. Paths are built at large or in slots of other paths, acts are
called on paths that are there, and between them the nodes may be changed in any way. -/
inductive Made : Document → Prop
  | start (f : Forest) : Made ⟨f, #[]⟩
  | nodes {d : Document} (f : Forest) : Made d → Made { d with forest := f }
  | path {d : Document} (n : NodeId) (parent : Option PathId) (slot : Option Int) : Made d →
      (∀ p, parent = some p → p < d.paths.size) → Made (perform (Edit.addPath n parent slot) d).2
  | act {d : Document} (a : Act) : Made d → a.OnPath d → Made (a.after d)

theorem Made.keyed {d : Document} (h : d.Made) : d.Keyed := by
  induction h with
  | start f => exact .start f
  | nodes f _ ih => exact ih.of_paths rfl
  | path n parent slot _ hp ih => exact ih.addPath n hp slot
  | act a _ ha ih => exact ih.step ha

end Document

end Retouch
