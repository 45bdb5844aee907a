import Mathlib.Data.List.NodupEquivFin
import Retouch.Proofs.Links

/-!
# Child paths stay the same

A path `q` that `p` gave for one of its children is given again for as long as that child is there,
whatever is done to other paths and wherever the child moves (`child_path_stays`). Three things can
part the two: moving `p`, even onto its own node, makes it forget its children; a path that `p` has
forgotten takes over its old slot when it is edited; and a change of the child list that does not go
through child paths of `p` leaves `q` behind. Without any one of these conditions the statement
fails (`child_path_lost`).
-/

namespace Retouch

namespace Act

/-- The act does not put the path on another node. -/
def Leaves (p : PathId) (a : Act) : Prop :=
  ∀ nodes, a ≠ .replace p nodes

/-- The child paths of `p` that the act edits are those that `p` knows. -/
def ThroughKnown (p : PathId) (d : Document) (a : Act) : Prop :=
  ∀ x, a.edited? = some x → (d.path x).parent = some p → ∃ k, (k, x) ∈ (d.path p).cache

/-- The act changes the child list of `p` by editing a child path of `p` if at all. -/
def ThroughChildren (p : PathId) (d : Document) (a : Act) : Prop :=
  ((a.after d).nodeAt p).children ≠ (d.nodeAt p).children →
    ∃ x, a.edited? = some x ∧ (d.path x).parent = some p

/-- The act leaves the child path `q` of `p` to `p`. -/
structure Spares (p q : PathId) (d : Document) (a : Act) : Prop where
  onPath : a.OnPath d
  spared : a.edited? ≠ some q
  leaves : a.Leaves p
  known : a.ThroughKnown p d
  children : a.ThroughChildren p d

end Act

/-- The path `p` knows `q` under a slot of its node that holds `c`, and `q` stands on `c`. -/
structure Tracks (p q : PathId) (c : NodeId) (d : Document) : Prop where
  linked : d.Linked
  inRange : p < d.paths.size
  slot : ∃ i : Nat, ((i : Int), q) ∈ (d.path p).cache ∧ (d.nodeAt p).children[i]? = some c
  node : (d.path q).node = c

/-- What stands in a list once stands in one place. -/
theorem eq_of_count_eq_one {items : List NodeId} {c : NodeId} {i j : Nat}
    (hone : items.count c = 1) (hi : items[i]? = some c) (hj : items[j]? = some c) : i = j := by
  have hno : ∀ {a b : Nat}, items[a]? = some c → items[b]? = some c → ¬ a < b := by
    intro a b ha hb hlt
    obtain ⟨hal, ha⟩ := List.getElem?_eq_some_iff.1 ha
    obtain ⟨hbl, hb⟩ := List.getElem?_eq_some_iff.1 hb
    have htwo := List.duplicate_iff_two_le_count.1
      (List.duplicate_iff_exists_distinct_get.2 ⟨⟨a, hal⟩, ⟨b, hbl⟩, hlt, ha.symm, hb.symm⟩)
    omega
  have := hno hi hj
  have := hno hj hi
  omega

namespace Tracks

variable {p q : PathId} {c : NodeId} {d d' : Document}

/-- What `p` and `q` are tracked by is their nodes, the cache of `p` and its child list. -/
theorem of_same (h : Tracks p q c d) (hl : d'.Linked) (hs : d.paths.size ≤ d'.paths.size)
    (hc : (d'.path p).cache = (d.path p).cache)
    (hn : (d'.nodeAt p).children = (d.nodeAt p).children)
    (hq : (d'.path q).node = (d.path q).node) : Tracks p q c d' := by
  refine ⟨hl, Nat.lt_of_lt_of_le h.inRange hs, ?_, hq.trans h.node⟩
  rw [hc, hn]
  exact h.slot

theorem seen (h : Tracks p q c d) (hl : d'.Linked) (hs : Document.Seen d d') :
    Tracks p q c d' := by
  obtain ⟨i, he, hi⟩ := h.slot
  have hq := h.linked.inRange p _ q he
  refine ⟨hl, Nat.lt_of_lt_of_le h.inRange hs.size, ⟨i, ?_, ?_⟩, ?_⟩
  · exact hs.entry p h.inRange q hq i he (by rw [hi, h.node])
  · rw [hs.nodeAt h.inRange]
    exact hi
  · rw [hs.node q hq]
    exact h.node

theorem make (h : Tracks p q c d) (node : Node) :
    Tracks p q c { d with forest := (d.forest.add node).2 } := by
  obtain ⟨i, -, hi⟩ := h.slot
  have hlt : (d.path p).node < d.forest.size :=
    Forest.lt_size_of_mem_children (List.mem_of_getElem? hi)
  refine h.of_same (h.linked.of_paths rfl) le_rfl rfl ?_ rfl
  change ((d.forest.add node).2.node (d.path p).node).children = _
  rw [Forest.node_add, if_neg (Nat.ne_of_lt hlt)]
  rfl

section Replace

variable {x y i : Nat} {field : Option String} {nodes : List NodeId}

/-- A splice of another slot moves `q` along with its node. -/
theorem splice (h : Tracks p q c d) (hxq : x ≠ q) (hx : ((i : Int), x) ∈ (d.path p).cache)
    (hi : i < (d.nodeAt p).children.length) :
    Tracks p q c (d.spliceSlot p i field nodes) ∧
      ∀ k, (k, q) ∈ ((d.spliceSlot p i field nodes).path p).cache → nodes ≠ [] → k ≠ i := by
  obtain ⟨j, hj, hc⟩ := h.slot
  have hix := h.linked.indexed h.inRange
  have hji : j ≠ i := by
    rintro rfl
    have hk := h.linked.keys p
    rw [← Assoc.get?_eq_some_iff hk] at hj hx
    exact hxq (Option.some.inj (hx.symm.trans hj))
  have hchildren : ((d.spliceSlot p i field nodes).nodeAt p).children =
      (d.nodeAt p).children.take i ++ nodes ++ (d.nodeAt p).children.drop (i + 1) := by
    unfold Document.nodeAt
    rw [(hix.path_keeps _ _ _ p).1, Document.node_spliceSlot hi, if_pos rfl]
  have hnode : ((d.spliceSlot p i field nodes).path q).node = c :=
    (hix.path_keeps _ _ _ q).1.trans h.node
  have hl := h.linked.spliceSlot h.inRange i field nodes
  refine ⟨⟨hl, by simpa using h.inRange, ?_, hnode⟩, fun k hk hne => ?_⟩
  · rw [hchildren, hix.path_owner]
    rcases lt_or_gt_of_ne hji with hlt | hlt
    · refine ⟨j, Document.mem_moved.2 (.inl ⟨by omega, hj⟩), ?_⟩
      rw [Document.getElem?_splice_before hlt hi, hc]
    · refine ⟨j + nodes.length - 1, Document.mem_moved.2 (.inr ⟨j, by omega, hj, by omega⟩), ?_⟩
      rw [Document.getElem?_splice_behind hlt hi, hc]
  · have hlen := List.length_pos_iff.2 hne
    rw [hix.path_owner] at hk
    rcases Document.mem_moved.1 hk with ⟨hlt, -⟩ | ⟨l, hlt, -, rfl⟩
    · omega
    · omega

theorem detach (h : Tracks p q c d) (hx : x < d.paths.size) (hl : (d.detach x).Linked) :
    Tracks p q c (d.detach x) := by
  have hpath := Document.path_detach hx
  refine h.of_same hl (by simp [Document.detach]) ?_ ?_ ?_
  · rw [hpath]
    split_ifs <;> rfl
  · unfold Document.nodeAt
    rw [hpath, Document.forest_detach]
    split_ifs <;> rfl
  · rw [hpath]
    split_ifs <;> rfl

theorem retarget (h : Tracks p q c d) (hx : x < d.paths.size) (hxp : x ≠ p) (hxq : x ≠ q)
    (n : NodeId) : Tracks p q c (d.retarget x n) := by
  have hpath := Document.path_retarget hx n
  refine h.of_same (h.linked.retarget hx n) (by simp [Document.retarget]) ?_ ?_ ?_
  · rw [hpath, if_neg (Ne.symm hxp)]
  · unfold Document.nodeAt
    rw [hpath, if_neg (Ne.symm hxp), Document.forest_retarget]
  · rw [hpath, if_neg (Ne.symm hxq)]

/-- A path that is entered does not take the place of `q` under another key. -/
theorem enter (h : Tracks p q c d) (hy : y < d.paths.size) {k : Int}
    (hk : y = p → ∀ l, (l, q) ∈ (d.path p).cache → l ≠ k) (hl : (d.enter x y k).Linked) :
    Tracks p q c (d.enter x y k) := by
  have hpath := Document.path_enter hy x k
  have hnode : ∀ z, ((d.enter x y k).path z).node = (d.path z).node := by
    intro z
    rw [hpath]
    split_ifs <;> rfl
  obtain ⟨i, he, hi⟩ := h.slot
  refine ⟨hl, by simpa [Document.enter] using h.inRange, ⟨i, ?_, ?_⟩, (hnode q).trans h.node⟩
  · rw [hpath]
    split_ifs with hyp
    · exact (Document.mem_insert (h.linked.keys p)).2 (.inr ⟨hk hyp.symm _ he, he⟩)
    · exact he
  · unfold Document.nodeAt
    rw [hnode, Document.forest_enter]
    exact hi

/-- Editing a path other than `q` leaves `q` to `p`. -/
theorem replace (h : Tracks p q c d) (hx : x < d.paths.size) (hxq : x ≠ q)
    (hxp : x = p → nodes = [])
    (hknown : (d.path x).parent = some p → ∃ k, (k, x) ∈ (d.path p).cache)
    (hsame : (d.path x).parent ≠ some p →
      ((perform (Edit.replace x nodes) d).2.nodeAt p).children = (d.nodeAt p).children) :
    Tracks p q c (perform (Edit.replace x nodes) d).2 := by
  rcases h.linked.replace_cases hx nodes with hd | ⟨n, rfl, -, hd⟩ |
    ⟨y, i, field, hy, hi, hheld, hd⟩
  · rw [hd]
    exact h
  · rw [hd]
    exact h.retarget hx (by rintro rfl; cases hxp rfl) hxq n
  have hyr := h.linked.lt_of_parent hy
  have hxs : x < (d.spliceSlot y i field nodes).paths.size := by simpa using hx
  -- the splice itself is tracked, provided that the child list of `p` is the right one behind it
  have hsplice : (y ≠ p → ((d.spliceSlot y i field nodes).nodeAt p).children =
      (d.nodeAt p).children) → Tracks p q c (d.spliceSlot y i field nodes) ∧
      (y = p → ∀ k, (k, q) ∈ ((d.spliceSlot y i field nodes).path p).cache → nodes ≠ [] →
        k ≠ i) := by
    intro hchildren
    by_cases hyp : y = p
    · subst hyp
      obtain ⟨k, hk⟩ := hknown hy
      cases (h.linked.slot y k x hk).symm.trans hi
      obtain ⟨ht, hne⟩ := h.splice hxq hk (List.getElem?_eq_some_iff.1 hheld).1
      exact ⟨ht, fun _ => hne⟩
    · have hkeep := (h.linked.indexed hyr).path_keeps i field nodes
      exact ⟨h.of_same (h.linked.spliceSlot hyr i field nodes) (by simp)
        ((hkeep p).2.2 (Ne.symm hyp)) (hchildren hyp) (hkeep q).1, fun he => absurd he hyp⟩
  have hparent : y ≠ p → (d.path x).parent ≠ some p := by
    intro hyp he
    exact hyp (Option.some.inj (hy.symm.trans he))
  rcases hd with ⟨rfl, hd⟩ | ⟨n, rest, rfl, hl, hseen⟩
  · have hl : ((d.spliceSlot y i field []).detach x).Linked := h.linked.taken hy hi hx
    rw [hd] at hsame ⊢
    refine (hsplice fun hyp => ?_).1.detach hxs hl
    rw [← hsame (hparent hyp)]
    unfold Document.nodeAt
    rw [Document.path_detach hxs, Document.forest_detach]
    split_ifs <;> rfl
  · have hne : x ≠ p := by
      rintro rfl
      cases hxp rfl
    have hys : y < ((d.spliceSlot y i field (n :: rest)).retarget x n).paths.size := by
      simpa [Document.retarget] using hyr
    have hpath : ((((d.spliceSlot y i field (n :: rest)).retarget x n).enter x y i).path p).node =
        ((d.spliceSlot y i field (n :: rest)).path p).node := by
      rw [Document.path_enter hys, Document.path_retarget hxs, if_neg (Ne.symm hne)]
      split_ifs <;> rfl
    have hp : p < (((d.spliceSlot y i field (n :: rest)).retarget x n).enter x y i).paths.size := by
      simpa [Document.enter, Document.retarget] using h.inRange
    obtain ⟨ht, hkey⟩ := hsplice fun hyp => by
      rw [← hsame (hparent hyp), hseen.nodeAt hp]
      unfold Document.nodeAt
      rw [hpath, Document.forest_enter, Document.forest_retarget]
    refine ((ht.retarget hxs hne hxq n).enter hys (fun hyp k hk => ?_)
      (h.linked.seated hy hi hx n)).seen hl hseen
    rw [Document.path_retarget hxs, if_neg (Ne.symm hne)] at hk
    exact hkey hyp k hk (by simp)

end Replace

/-- An act that spares `q` leaves it to `p`. -/
theorem step (h : Tracks p q c d) {a : Act} (ha : a.Spares p q d) : Tracks p q c (a.after d) := by
  rcases he : a.edited? with _ | x
  · rcases Act.after_of_not_edited h.linked he ha.onPath with ⟨node, hd⟩ | ⟨hl, hs⟩
    · rw [hd]
      exact h.make node
    · exact h.seen hl hs
  · have hsame := ha.children
    unfold Act.ThroughChildren at hsame
    obtain ⟨nodes, hn, hd⟩ := Act.after_of_edited he d
    rw [hd] at hsame ⊢
    refine h.replace (ha.onPath x (Act.on_of_edited he)) ?_ ?_ (ha.known x he) fun hx => ?_
    · rintro rfl
      exact ha.spared he
    · rintro rfl
      exact hn.resolve_right (ha.leaves nodes)
    · by_contra hne
      obtain ⟨x', hx', hp⟩ := hsame hne
      cases he.symm.trans hx'
      exact hx hp

theorem run (h : Tracks p q c d) (hr : Act.Run (Act.Spares p q) d d') : Tracks p q c d' := by
  induction hr with
  | start => exact h
  | step _ ha ih => exact ih.step ha

/-- The path that `p` gives for a child is tracked. -/
theorem of_child (hl : d.Linked) (hp : p < d.paths.size) {index : Int}
    (hq : perform (Edit.child p index) d = (.ok q, d')) : Tracks p q (d'.path q).node d' := by
  have hs := Edit.surveyed_child hl hp index
  rw [hq] at hs
  rw [Edit.perform_child] at hq
  split at hq
  · cases hq
  rename_i n hn
  obtain ⟨i, hi, hn⟩ := Slot.get?_eq_some_iff.1 hn
  rw [hi] at hq
  obtain ⟨he, hc⟩ := hl.childIn hp n i
  cases hq
  refine ⟨hs.linked, Nat.lt_of_lt_of_le hp hs.seen.size, ⟨i, he, ?_⟩, rfl⟩
  rw [hs.seen.nodeAt hp, hn, hc]

/-- While the child is in one slot only, its path is the one that `p` gives for that slot. -/
theorem child (h : Tracks p q c d) {j : Nat} (hj : (d.nodeAt p).children[j]? = some c)
    (hone : (d.nodeAt p).children.count c = 1) :
    perform (Edit.child p j) d = (.ok q, d) ∧ (d.path q).slot = some (j : Int) := by
  obtain ⟨i, he, hi⟩ := h.slot
  cases eq_of_count_eq_one hone hi hj
  refine ⟨?_, h.linked.slot p _ q he⟩
  rw [Edit.perform_child, Slot.get?_natCast, hj, Slot.fromFront_natCast]
  simp only [Document.childIn, (Assoc.get?_eq_some_iff (h.linked.keys p)).2 he, h.node, if_true]

end Tracks

/-- A path that `p` gave for a child is given again, under the slot where the child is now, after
any acts that spare it and as long as the child is in one slot of the node of `p`. -/
theorem child_path_stays {f : Forest} {n : NodeId} {d d₁ d₂ : Document} {p q : PathId}
    {index : Int} {j : Nat}
    (hd : Act.Run (fun d a => a.OnPath d) (Document.addRoot ⟨f, #[]⟩ n).2 d)
    (hp : p < d.paths.size) (hq : perform (Edit.child p index) d = (.ok q, d₁))
    (hrun : Act.Run (Act.Spares p q) d₁ d₂)
    (hj : (d₂.nodeAt p).children[j]? = some (d₁.path q).node)
    (hone : (d₂.nodeAt p).children.count (d₁.path q).node = 1) :
    perform (Edit.child p j) d₂ = (.ok q, d₂) ∧ (d₂.path q).slot = some (j : Int) := by
  have hl : d.Linked :=
    hd.linked (fun _ _ ha => ha) ((Document.Linked.start f).addRoot n)
  exact ((Tracks.of_child hl hp hq).run hrun).child hj hone

/-- Three leaves in a list, and a leaf apart from them. -/
def listForest : Forest :=
  ⟨#[.leaf "a" "1" true, .leaf "b" "2" true, .leaf "c" "3" true,
    .branch "list" [0, 1, 2] [none, none, none], .leaf "d" "4" true]⟩

/-- A root path over the list. -/
def listRoot : Document :=
  (Document.addRoot ⟨listForest, #[]⟩ 3).2

/-- The last child is asked for. -/
def listAsked : Document :=
  (perform (Edit.child 0 (-1)) listRoot).2

/-- The first child is asked for as well. -/
def listSeen : Document :=
  (Act.child 0 0).after listAsked

/-- The leaf is put in front of the first child. -/
def listGrown : Document :=
  (Act.replace 2 [4, 0]).after listSeen

/-- The first child is taken out. -/
def listPruned : Document :=
  (Act.prune 3).after listGrown

theorem child_path_stays_list :
    (listPruned.nodeAt 0).children = [4, 1, 2] ∧
      perform (Edit.child 0 (2 : Nat)) listPruned = (.ok 1, listPruned) ∧
      (listPruned.path 1).slot = some ((2 : Nat) : Int) := by
  have hask : perform (Edit.child 0 (-1)) listRoot = (.ok 1, listAsked) :=
    perform_eq_of_toOption (by decide)
  have hseen : (Act.child 0 0).Spares 0 1 listAsked :=
    ⟨by rintro _ ⟨⟩; decide, by decide, by rintro _ ⟨⟩, by rintro _ ⟨⟩,
      fun hne => absurd (by decide) hne⟩
  have hgrown : (Act.replace 2 [4, 0]).Spares 0 1 listSeen :=
    ⟨by rintro _ ⟨⟩; decide, by decide, by rintro _ ⟨⟩, by rintro _ ⟨⟩ -; exact ⟨0, by decide⟩,
      fun _ => ⟨2, rfl, by decide⟩⟩
  have hpruned : (Act.prune 3).Spares 0 1 listGrown :=
    ⟨by rintro _ ⟨⟩; decide, by decide, by rintro _ ⟨⟩, by rintro _ ⟨⟩ -; exact ⟨1, by decide⟩,
      fun _ => ⟨3, rfl, by decide⟩⟩
  exact ⟨by decide, child_path_stays .start (by decide) hask
    (.step (.step (.step .start hseen) hgrown) hpruned) (by decide) (by decide)⟩

/-! ## What parts a path from its child paths -/

/-- A child path is given again by a path with distinct children, after any acts that may be done
and do not edit it, if the path is still attached with its node and the child is there once. -/
def ChildStays (may : PathId → Document → Act → Prop) : Prop :=
  ∀ (f : Forest) (n : NodeId) (d d₁ d₂ : Document) (p q : PathId) (index : Int) (j : Nat),
    Act.Run (fun d a => a.OnPath d) (Document.addRoot ⟨f, #[]⟩ n).2 d → p < d.paths.size →
    (d.nodeAt p).children.Nodup → perform (Edit.child p index) d = (.ok q, d₁) →
    Act.Run (fun d a => a.OnPath d ∧ a.edited? ≠ some q ∧ may p d a) d₁ d₂ →
    (d₂.path p).node = (d.path p).node →
    ((d₂.path p).parent = none ∨ ∃ r i, d₂.Fills p r i) →
    (d₂.nodeAt p).children[j]? = some (d₁.path q).node →
    (d₂.nodeAt p).children.count (d₁.path q).node = 1 →
    (perform (Edit.child p j) d₂).1 = .ok q ∧ (d₂.path q).slot = some (j : Int)

/-- A leaf in a list in a root, and a leaf apart from them. -/
def nestForest : Forest :=
  ⟨#[.leaf "a" "1" true, .branch "list" [0] [none], .branch "root" [1] [none],
    .leaf "b" "2" true]⟩

/-- The path of the list is asked for. -/
def nestSeen : Document :=
  (Act.child 0 0).after (Document.addRoot ⟨nestForest, #[]⟩ 2).2

/-- The path of the leaf is asked for. -/
def nestAsked : Document :=
  (perform (Edit.child 1 0) nestSeen).2

/-- A list that is put back with a leaf behind it has new child paths. -/
theorem not_stays_moved :
    ¬ ChildStays fun p d a => a.ThroughKnown p d ∧ a.ThroughChildren p d := by
  intro h
  have hask : perform (Edit.child 1 0) nestSeen = (.ok 2, nestAsked) :=
    perform_eq_of_toOption (by decide)
  have hlost := (h nestForest 2 nestSeen nestAsked ((Act.replace 1 [1, 3]).after nestAsked) 1 2 0 0
    (.step .start (by rintro _ ⟨⟩; decide)) (by decide) (by decide) hask
    (.step .start ⟨by rintro _ ⟨⟩; decide, by decide,
      by rintro _ ⟨⟩ hp; exact absurd hp (by decide), fun hne => absurd (by decide) hne⟩)
    (by decide) (.inr ⟨0, 0, by decide, by decide, by decide⟩) (by decide) (by decide)).1
  exact absurd (congrArg Except.toOption hlost) (by decide)

/-- The path of the leaf, forgotten because the list was put on its own node. -/
def nestForgotten : Document :=
  (Act.replace 1 [1]).after nestAsked

/-- The path of the leaf is asked for again. -/
def nestAgain : Document :=
  (perform (Edit.child 1 0) nestForgotten).2

/-- A forgotten path takes its slot back when it is put on its own node. -/
theorem not_stays_forgotten :
    ¬ ChildStays fun p d a => a.Leaves p ∧ a.ThroughChildren p d := by
  intro h
  have hask : perform (Edit.child 1 0) nestForgotten = (.ok 3, nestAgain) :=
    perform_eq_of_toOption (by decide)
  have hlost := (h nestForest 2 nestForgotten nestAgain
    ((Act.replace 2 [0]).after nestAgain) 1 3 0 0
    (.step (.step (a := .child 1 0) (.step .start (by rintro _ ⟨⟩; decide))
      (by rintro _ ⟨⟩; decide)) (by rintro _ ⟨⟩; decide)) (by decide) (by decide) hask
    (.step .start ⟨by rintro _ ⟨⟩; decide, by decide, by rintro _ ⟨⟩,
      fun hne => absurd (by decide) hne⟩)
    (by decide) (.inr ⟨0, 0, by decide, by decide, by decide⟩) (by decide) (by decide)).1
  exact absurd (congrArg Except.toOption hlost) (by decide)

/-- A list of two leaves that fills both slots of a root. -/
def twinForest : Forest :=
  ⟨#[.leaf "a" "1" true, .leaf "b" "2" true, .branch "list" [0, 1] [none, none],
    .branch "root" [2, 2] [none, none]]⟩

/-- Both paths of the list and, through the second, that of its first leaf are asked for. -/
def twinSeen : Document :=
  (Act.child 2 0).after ((Act.childPaths 0).after (Document.addRoot ⟨twinForest, #[]⟩ 3).2)

/-- The path of the second leaf is asked for through the first path of the list. -/
def twinAsked : Document :=
  (perform (Edit.child 1 1) twinSeen).2

/-- A leaf taken out through another path of the list leaves the paths of this one behind. -/
theorem not_stays_shared :
    ¬ ChildStays fun p d a => a.Leaves p ∧ a.ThroughKnown p d := by
  intro h
  have hask : perform (Edit.child 1 1) twinSeen = (.ok 4, twinAsked) :=
    perform_eq_of_toOption (by decide)
  have hlost := (h twinForest 3 twinSeen twinAsked ((Act.prune 3).after twinAsked) 1 4 1 0
    (.step (.step .start (by rintro _ ⟨⟩; decide)) (by rintro _ ⟨⟩; decide)) (by decide)
    (by decide) hask
    (.step .start ⟨by rintro _ ⟨⟩; decide, by decide, by rintro _ ⟨⟩,
      by rintro _ ⟨⟩ hp; exact absurd hp (by decide)⟩)
    (by decide) (.inr ⟨0, 0, by decide, by decide, by decide⟩) (by decide) (by decide)).1
  exact absurd (congrArg Except.toOption hlost) (by decide)

/-- That the child path is not edited is not enough for it to stay, and of the three conditions on
the acts none follows from the others. -/
theorem child_path_lost :
    ¬ ChildStays (fun _ _ _ => True) ∧
    ¬ ChildStays (fun p d a => a.ThroughKnown p d ∧ a.ThroughChildren p d) ∧
    ¬ ChildStays (fun p d a => a.Leaves p ∧ a.ThroughChildren p d) ∧
    ¬ ChildStays (fun p d a => a.Leaves p ∧ a.ThroughKnown p d) := by
  refine ⟨fun h => not_stays_moved ?_, not_stays_moved, not_stays_forgotten, not_stays_shared⟩
  intro f n d d₁ d₂ p q index j hd hp hn hq hrun
  exact h f n d d₁ d₂ p q index j hd hp hn hq (hrun.mono fun _ _ ha => ⟨ha.1, ha.2.1, trivial⟩)

end Retouch
