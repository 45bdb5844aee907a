import Retouch.Proofs.Reseating

/-!
# What edits do to attached documents

One statement for each edit. Looking at children, at all of them or at everything below adds paths
and changes nothing else (`child_ok`, `childPaths_ok`, `walkFrom_ok`); a walk visits the nodes in
the order of the forest's own walk. Replacing a path's node moves a root path (`replace_root`),
takes a path out (`replace_nil`) or seats it on the first of the new nodes and looks at the others
(`replace_cons`).
-/

namespace Retouch.Edit

open Document

/-- A document in which only some looking was done. -/
structure Looked (roots : List PathId) (d d' : Document) : Prop where
  attached : d'.Attached roots
  grown : Grown d d'

variable {roots : List PathId}

theorem Looked.refl {d : Document} (h : d.Attached roots) : Looked roots d d :=
  ⟨h, .refl d⟩

theorem Looked.trans {a b c : Document} (h : Looked roots a b) (h' : Looked roots b c) :
    Looked roots a c :=
  ⟨h'.attached, h.grown.trans h'.grown⟩

theorem Looked.live {d d' : Document} (h : Looked roots d d') (hd : d.Attached roots) {p : PathId}
    (hp : d.Live roots p) : d'.Live roots p :=
  h.grown.live hd hp

theorem Looked.nodeAt {d d' : Document} (h : Looked roots d d') (hd : d.Attached roots) {p : PathId}
    (hp : d.Live roots p) : d'.nodeAt p = d.nodeAt p := by
  unfold Document.nodeAt
  rw [h.grown.node p (hd.inRange p hp), h.grown.forest]

theorem perform_addNode (node : Node) (d : Document) :
    perform (addNode node) d =
      (.ok d.forest.size, { d with forest := (d.forest.add node).2 }) := by
  unfold addNode
  rw [perform_bind_of_ok (perform_get d)]
  exact perform_bind_of_ok (perform_set d _) _

/-! ## Looking -/

theorem perform_child (p : PathId) (index : Int) (d : Document) :
    perform (child p index) d =
      match Slot.get? (d.nodeAt p).children index with
      | none => (.error (.noChild (d.nodeAt p).kind
          (Slot.fromFront (d.nodeAt p).children.length index)), d)
      | some n => (.ok (d.childIn p (Slot.fromFront (d.nodeAt p).children.length index) n).1,
          (d.childIn p (Slot.fromFront (d.nodeAt p).children.length index) n).2) := by
  unfold child
  rw [perform_bind_of_ok (perform_get d)]
  split
  · rename_i h
    simp only [h, perform_throw]
  · rename_i n h
    simp only [h]
    rw [perform_bind_of_ok (perform_set d _)]
    rfl

/-- The path of a child that is there is live, and stands on that child. -/
theorem child_ok {d : Document} (h : d.Attached roots) {p : PathId} (hp : d.Live roots p)
    {i : Nat} (hi : i < (d.nodeAt p).children.length) :
    ∃ q d', perform (child p i) d = (.ok q, d') ∧ Looked roots d d' ∧ d'.Live roots q ∧
      (d.nodeAt p).children[i]? = some (d'.path q).node := by
  obtain ⟨n, hn⟩ : ∃ n, (d.nodeAt p).children[i]? = some n := ⟨_, List.getElem?_eq_getElem hi⟩
  obtain ⟨h1, h2, h3⟩ := h.childIn hp hn
  have hl : Looked roots d (d.childIn p i n).2 := ⟨h1, h2⟩
  have hp' := hl.live h hp
  refine ⟨_, _, ?_, hl, .entry hp' h3, ?_⟩
  · rw [perform_child, Slot.get?_natCast, hn, Slot.fromFront_natCast]
  · rw [← hl.nodeAt h hp]
    exact (fills_of_mem h1 hp' h3).held

/-- Asking for a child, there or not, is looking. -/
theorem looked_child {d : Document} (h : d.Attached roots) {p : PathId} (hp : d.Live roots p)
    (index : Int) : Looked roots d (perform (child p index) d).2 := by
  rw [perform_child]
  split
  · exact .refl h
  · rename_i n hn
    obtain ⟨i, hi, hn⟩ := Slot.get?_eq_some_iff.1 hn
    obtain ⟨h1, h2, -⟩ := h.childIn hp hn
    rw [hi]
    exact ⟨h1, h2⟩

/-- Children asked for one after the other. -/
theorem mapM_child_ok {ι : Type} (g : ι → Nat) {p : PathId} : ∀ (is : List ι) {d : Document},
    d.Attached roots → d.Live roots p → (∀ x ∈ is, g x < (d.nodeAt p).children.length) →
    ∃ qs d', perform (is.mapM fun x => child p (g x)) d = (.ok qs, d') ∧ Looked roots d d' ∧
      (∀ q ∈ qs, d'.Live roots q) ∧
      qs.map (fun q => some (d'.path q).node) = is.map fun x => (d.nodeAt p).children[g x]?
  | [], d, h, _, _ => ⟨[], d, by simp, .refl h, by simp, rfl⟩
  | x :: is, d, h, hp, hi => by
    obtain ⟨q, d1, hq, hl, hlive, hnode⟩ := child_ok h hp (hi x List.mem_cons_self)
    have hp1 := hl.live h hp
    have hsame := hl.nodeAt h hp
    obtain ⟨qs, d2, hqs, hl', hlives, hnodes⟩ := mapM_child_ok g is hl.attached hp1 (by
      rw [hsame]
      exact fun y hy => hi y (List.mem_cons_of_mem _ hy))
    refine ⟨q :: qs, d2, ?_, hl.trans hl', ?_, ?_⟩
    · rw [List.mapM_cons, perform_bind_of_ok hq, perform_bind_of_ok hqs]
      rfl
    · exact List.forall_mem_cons.2 ⟨hl'.live hl.attached hlive, hlives⟩
    · rw [List.map_cons, List.map_cons, hnodes, hsame, hnode,
        hl'.grown.node q (hl.attached.inRange q hlive)]

/-- All child paths are live, on the children in their order. -/
theorem childPaths_ok {d : Document} (h : d.Attached roots) {p : PathId} (hp : d.Live roots p) :
    ∃ qs d', perform (childPaths p) d = (.ok qs, d') ∧ Looked roots d d' ∧
      (∀ q ∈ qs, d'.Live roots q) ∧
      qs.map (fun q => (d'.path q).node) = (d.nodeAt p).children := by
  obtain ⟨qs, d', hqs, hl, hlive, hnode⟩ := mapM_child_ok id
    (List.range (d.nodeAt p).children.length) h hp (fun x hx => List.mem_range.1 hx)
  refine ⟨qs, d', ?_, hl, hlive, ?_⟩
  · unfold childPaths
    rw [perform_bind_of_ok (perform_get d)]
    exact hqs
  · refine List.map_injective_iff.2 (Option.some_injective _) ?_
    rw [List.map_map]
    refine hnode.trans (List.ext_getElem? fun i => ?_)
    by_cases hi : i < (d.nodeAt p).children.length
    · simp [hi]
    · simp [hi]

/-- A walk visits live paths, whose nodes the forest's walk visits in the same order. -/
theorem walkFrom_ok : ∀ (fuel : Nat) (ps : List PathId) {d : Document}, d.Attached roots →
    (∀ p ∈ ps, d.Live roots p) →
    ∃ qs d', perform (walkFrom fuel ps) d = (.ok qs, d') ∧ Looked roots d d' ∧
      (∀ q ∈ qs, d'.Live roots q) ∧
      qs.map (fun q => (d'.path q).node) =
        d.forest.walkFrom fuel (ps.map fun p => (d.path p).node)
  | fuel, [], d, h, _ => by
    refine ⟨[], d, by simp [walkFrom], .refl h, by simp, ?_⟩
    cases fuel <;> rfl
  | 0, p :: ps, d, h, _ => ⟨[], d, by simp [walkFrom], .refl h, by simp, rfl⟩
  | fuel + 1, p :: ps, d, h, hps => by
    obtain ⟨hp, hps⟩ := List.forall_mem_cons.1 hps
    obtain ⟨qs, d1, hqs, hl, hlive, hnode⟩ := childPaths_ok h hp
    have hstack : ∀ q ∈ qs ++ ps, d1.Live roots q := by
      intro q hq
      rcases List.mem_append.1 hq with hq | hq
      · exact hlive q hq
      · exact hl.live h (hps q hq)
    obtain ⟨rs, d2, hrs, hl', hlives, hnodes⟩ := walkFrom_ok fuel (qs ++ ps) hl.attached hstack
    refine ⟨p :: rs, d2, ?_, hl.trans hl', ?_, ?_⟩
    · rw [walkFrom, perform_bind_of_ok hqs, perform_bind_of_ok hrs]
      rfl
    · exact List.forall_mem_cons.2 ⟨(hl.trans hl').live h hp, hlives⟩
    · have hrest : ps.map (fun q => (d1.path q).node) = ps.map fun q => (d.path q).node :=
        List.map_congr_left fun q hq => hl.grown.node q (h.inRange q (hps q hq))
      rw [List.map_cons, hnodes, List.map_append, hnode, hrest, hl.grown.forest,
        (hl.trans hl').grown.node p (h.inRange p hp)]
      rfl

/-- The paths of a walk stand on the nodes of the forest's walk. -/
theorem walk_ok {d : Document} (h : d.Attached roots) {p : PathId} (hp : d.Live roots p) :
    ∃ qs d', perform (walk p) d = (.ok qs, d') ∧ Looked roots d d' ∧
      (∀ q ∈ qs, d'.Live roots q) ∧
      qs.map (fun q => (d'.path q).node) = d.forest.walk (d.path p).node := by
  unfold walk
  rw [perform_bind_of_ok (perform_get d)]
  exact walkFrom_ok _ [p] h (by simpa using hp)

/-! ## Replacing -/

/-- A replacement that fails changes nothing. One that succeeds moves a root path, or splices the
slot that the path names, which holds the path's node and has a field. -/
theorem replace_cases (p : PathId) (nodes : List NodeId) (d : Document) :
    (∃ fault, perform (replace p nodes) d = (.error fault, d)) ∨
    (∃ n, nodes = [n] ∧ (d.path p).parent = none ∧
      perform (replace p nodes) d = (.ok [p], d.retarget p n)) ∨
    ∃ q slot field, (d.path p).parent = some q ∧ (d.path p).slot = some slot ∧
      Slot.get? (d.nodeAt q).children slot = some (d.path p).node ∧
      Slot.get? (d.nodeAt q).fields slot = some field ∧
      ((nodes = [] ∧ perform (replace p nodes) d =
          (.ok [], (d.spliceSlot q slot field []).detach p)) ∨
        ∃ n rest, nodes = n :: rest ∧ (perform (replace p nodes) d).2 =
          (perform ((List.range rest.length).mapM fun (i : Nat) => child q (slot + 1 + i))
            (((d.spliceSlot q slot field nodes).retarget p n).enter p q slot)).2) := by
  unfold replace
  rw [perform_bind_of_ok (perform_get d)]
  simp only
  split
  · rename_i hp
    split
    · rename_i n
      refine .inr (.inl ⟨n, rfl, hp, ?_⟩)
      rw [perform_bind_of_ok (perform_set d _)]
      rfl
    · exact .inl ⟨_, rfl⟩
  rename_i q hq
  split
  · exact .inl ⟨_, rfl⟩
  rename_i slot hslot
  split_ifs
  · exact .inl ⟨_, rfl⟩
  split
  · exact .inl ⟨_, rfl⟩
  rename_i held hheld
  split_ifs with hne
  · exact .inl ⟨_, rfl⟩
  split
  · exact .inl ⟨_, rfl⟩
  rename_i field hfield
  -- all checks have passed
  refine .inr (.inr ⟨q, slot, field, hq, hslot, by rw [hheld, not_not.1 hne], hfield, ?_⟩)
  split
  · refine .inl ⟨rfl, ?_⟩
    rw [perform_bind_of_ok (perform_set d _)]
    rfl
  · rename_i n rest
    refine .inr ⟨n, rest, rfl, ?_⟩
    rw [perform_bind_of_ok (perform_set d _), perform_bind]
    split
    · rename_i h
      rw [h]
      rfl
    · rename_i h
      rw [h]

theorem replace_root {d : Document} {p : PathId} (hp : (d.path p).parent = none) (n : NodeId) :
    perform (replace p [n]) d = (.ok [p], d.retarget p n) := by
  unfold replace
  rw [perform_bind_of_ok (perform_get d)]
  simp only [hp]
  rw [perform_bind_of_ok (perform_set d _)]
  rfl

/-- A root path takes one node, no more and no less. -/
theorem replace_root_refused {d : Document} {p : PathId} (hp : (d.path p).parent = none)
    {nodes : List NodeId} (hn : ∀ n, nodes ≠ [n]) :
    perform (replace p nodes) d = (.error .rootNeedsOne, d) := by
  unfold replace
  rw [perform_bind_of_ok (perform_get d)]
  simp only [hp]
  match nodes, hn with
  | [], _ => rfl
  | [n], hn => exact absurd rfl (hn n)
  | _ :: _ :: _, _ => rfl

/-- Where all checks pass, the slot is spliced. The path is taken out, or seated on the first node
and the paths of the others are asked for. -/
theorem perform_replace_held {d : Document} {p q : PathId} {slot : Int} {field : Option String}
    (hq : (d.path p).parent = some q) (hslot : (d.path p).slot = some slot)
    (hheld : Slot.get? (d.nodeAt q).children slot = some (d.path p).node)
    (hfield : Slot.get? (d.nodeAt q).fields slot = some field) (nodes : List NodeId) :
    perform (replace p nodes) d = match nodes with
      | [] => (.ok [], (d.spliceSlot q slot field []).detach p)
      | n :: rest =>
        perform (do
            let others ← (List.range rest.length).mapM fun (i : Nat) => child q (slot + 1 + i)
            return p :: others)
          (((d.spliceSlot q slot field (n :: rest)).retarget p n).enter p q slot) := by
  have hin := Slot.get?_isSome_iff.1 (Option.isSome_of_eq_some hheld)
  unfold replace
  rw [perform_bind_of_ok (perform_get d)]
  simp only [hq, hslot, hheld, hfield]
  rw [if_neg (by omega), if_neg (by simp)]
  cases nodes with
  | nil =>
    simp only
    rw [perform_bind_of_ok (perform_set d _)]
    rfl
  | cons n rest =>
    simp only
    rw [perform_bind_of_ok (perform_set d _)]

section Slot

variable {d : Document} {p q i : Nat} (h : d.Attached roots) (hp : d.Live roots p)
  (he : ((i : Int), q) ∈ (d.path p).cache)

include h hp he

/-- Where the slot has no field, nothing is replaced. -/
theorem replace_refused (hf : (d.nodeAt p).fields[i]? = none) (nodes : List NodeId) :
    perform (replace q nodes) d = (.error .slotOutOfRange, d) := by
  have hq := fills_of_mem h hp he
  have hi := (List.getElem?_eq_some_iff.1 hq.held).1
  unfold replace
  rw [perform_bind_of_ok (perform_get d)]
  simp only [hq.parent, hq.slot, Slot.get?_natCast, hq.held, hf]
  rw [if_neg (by omega), if_neg (by simp)]
  rfl

theorem replace_nil {field : Option String} (hf : (d.nodeAt p).fields[i]? = some field) :
    perform (replace q []) d = (.ok [], (d.spliceSlot p i field []).detach q) := by
  have hq := fills_of_mem h hp he
  exact perform_replace_held hq.parent hq.slot (by simpa using hq.held) (by simpa using hf) []

theorem prune_ok {field : Option String} (hf : (d.nodeAt p).fields[i]? = some field) :
    perform (prune q) d = (.ok (some p), (d.spliceSlot p i field []).detach q) := by
  unfold prune
  rw [perform_bind_of_ok (perform_get d), perform_bind_of_ok (replace_nil h hp he hf),
    (fills_of_mem h hp he).parent]
  rfl

/-- The path is seated on the first node; the paths of the others are asked for. -/
theorem replace_cons (hone : ∀ y, d.Live roots y → (d.path y).node = (d.path p).node → y = p)
    {field : Option String} (hf : (d.nodeAt p).fields[i]? = some field) (n : NodeId)
    (rest : List NodeId) :
    ∃ qs d', perform (replace q (n :: rest)) d = (.ok (q :: qs), d') ∧ qs.length = rest.length ∧
      Looked roots (((d.spliceSlot p i field (n :: rest)).retarget q n).enter q p i) d' := by
  have hq := fills_of_mem h hp he
  have hi := (List.getElem?_eq_some_iff.1 hq.held).1
  have hs : (((d.spliceSlot p i field (n :: rest)).retarget q n).enter q p i).Attached roots :=
    h.seat hp he hone
  have hlen : ∀ j ∈ List.range rest.length, i + 1 + j <
      ((((d.spliceSlot p i field (n :: rest)).retarget q n).enter q p i).nodeAt
        p).children.length := by
    intro j hj
    rw [nodeAt_seated_owner h hp he]
    have := List.mem_range.1 hj
    simp only [List.length_append, List.length_take, List.length_cons, List.length_drop]
    omega
  obtain ⟨qs, d', hqs, hl, -, hnodes⟩ := mapM_child_ok (fun j => i + 1 + j)
    (List.range rest.length) hs (live_seated h hp he hp (h.not_live_under_child hp he)) hlen
  refine ⟨qs, d', ?_, by simpa using congrArg List.length hnodes, hl⟩
  rw [perform_replace_held hq.parent hq.slot (by simpa using hq.held) (by simpa using hf)]
  push_cast at hqs
  simp only
  rw [perform_bind_of_ok hqs]
  rfl

end Slot

end Retouch.Edit
