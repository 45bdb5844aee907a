import Retouch.Proofs.Attached

/-!
# Putting nodes in the place of one

Replacing the node of a path splices one child list, drops the path from its parent's cache and
tells the paths behind it where they are now. Taken out, the path is the root of a tree of its own
(`Attached.take`); put back on the first of the new nodes, it fills its slot again
(`Attached.join`). The paths that the edit is not about keep their nodes and their parents.
-/

namespace Retouch.Document

/-! ## The child list -/

section Splice

variable {d : Document} {p i : Nat} {field : Option String} {nodes : List NodeId}

theorem forest_spliceSlot (d : Document) (p : PathId) (slot : Int) (field : Option String)
    (nodes : List NodeId) :
    (d.spliceSlot p slot field nodes).forest =
      d.forest.modify (d.path p).node fun x =>
        { x with
          children := Slot.splice x.children slot (slot + 1) nodes
          fields := Slot.splice x.fields slot (slot + 1) (List.replicate nodes.length field) } := by
  unfold spliceSlot reindex
  simp only [forest_modifyPath, forest_moveBehind]
  rfl

theorem node_spliceSlot (hi : i < (d.nodeAt p).children.length) (m : Nat) :
    (d.spliceSlot p i field nodes).forest.node m =
      if m = (d.path p).node then
        { d.forest.node m with
          children := (d.forest.node m).children.take i ++ nodes ++
            (d.forest.node m).children.drop (i + 1)
          fields := Slot.splice (d.forest.node m).fields i ((i : Int) + 1)
            (List.replicate nodes.length field) }
      else d.forest.node m := by
  have hlt : (d.path p).node < d.forest.size :=
    Forest.lt_size_of_mem_children (List.getElem_mem hi)
  rw [forest_spliceSlot, Forest.node_modify _ _ _ _ hlt]
  split_ifs with hm
  · subst hm
    have hi' : i < (d.forest.node (d.path p).node).children.length := hi
    rw [← Slot.splice_natCast hi']
  · rfl

@[simp]
theorem size_spliceSlot (d : Document) (p : PathId) (slot : Int) (field : Option String)
    (nodes : List NodeId) : (d.spliceSlot p slot field nodes).paths.size = d.paths.size := by
  unfold spliceSlot reindex
  simp [modifyNode]

@[simp]
theorem size_forest_spliceSlot (d : Document) (p : PathId) (slot : Int) (field : Option String)
    (nodes : List NodeId) : (d.spliceSlot p slot field nodes).forest.size = d.forest.size := by
  unfold spliceSlot reindex
  simp [modifyNode]

/-- The children before the slot stay where they are. -/
theorem getElem?_splice_before {α : Type} {items new : List α} {i j : Nat} (hj : j < i)
    (hi : i < items.length) : (items.take i ++ new ++ items.drop (i + 1))[j]? = items[j]? := by
  rw [List.append_assoc, List.getElem?_append_left (by simp; omega), List.getElem?_take,
    if_pos hj]

/-- The children behind the slot move by the number of new ones less one. -/
theorem getElem?_splice_behind {α : Type} {items new : List α} {i j : Nat} (hj : i < j)
    (hi : i < items.length) :
    (items.take i ++ new ++ items.drop (i + 1))[j + new.length - 1]? = items[j]? := by
  have hl : (items.take i ++ new).length = i + new.length := by simp; omega
  rw [List.getElem?_append_right (by omega), hl, List.getElem?_drop]
  congr 1
  omega

end Splice

/-! ## The paths -/

/-- The path has other paths in its cache, each under the slot that it names itself. -/
structure Indexed (d : Document) (p : PathId) : Prop where
  inRange : p < d.paths.size
  entries : ∀ e ∈ (d.path p).cache, e.2 < d.paths.size
  own : ∀ k, (k, p) ∉ (d.path p).cache
  slot : ∀ k x, (k, x) ∈ (d.path p).cache → (d.path x).slot = some k

section Indexed

variable {d : Document} {p : Nat} {i : Int} {field : Option String} {nodes : List NodeId}

theorem Indexed.path_owner (h : d.Indexed p) : (d.spliceSlot p i field nodes).path p =
    { d.path p with
      cache := (d.path p).cache.filterMap (movedEntry i ((nodes.length : Int) - 1)) } := by
  unfold spliceSlot reindex
  rw [path_modifyPath _ _ _ _ (by simpa [modifyNode] using h.inRange), if_pos rfl,
    path_moveBehind_of_not]
  · rfl
  · exact h.entries
  · exact fun k hk => absurd hk (h.own k)

theorem Indexed.path_behind (h : d.Indexed p) {x : Nat} {k : Int}
    (hx : (k, x) ∈ (d.path p).cache) (hk : i < k) :
    (d.spliceSlot p i field nodes).path x =
      { d.path x with slot := some (k + ((nodes.length : Int) - 1)) } := by
  have hne : x ≠ p := by
    rintro rfl
    exact h.own k hx
  unfold spliceSlot reindex
  rw [path_modifyPath _ _ _ _ (by simpa [modifyNode] using h.inRange), if_neg hne,
    path_moveBehind_of_mem _ _ _ hk]
  · rfl
  · exact h.entries
  · exact hx
  · intro k' hk'
    exact Option.some.inj ((h.slot k' x hk').symm.trans (h.slot k x hx))

theorem Indexed.path_other (h : d.Indexed p) {x : Nat} (hne : x ≠ p)
    (hx : ∀ k, (k, x) ∈ (d.path p).cache → k ≤ i) :
    (d.spliceSlot p i field nodes).path x = d.path x := by
  unfold spliceSlot reindex
  rw [path_modifyPath _ _ _ _ (by simpa [modifyNode] using h.inRange), if_neg hne,
    path_moveBehind_of_not]
  · rfl
  · exact h.entries
  · exact hx

/-- A path keeps its node and its parent, and, but for the owner of the list, its cache. -/
theorem Indexed.path_keeps (h : d.Indexed p) (i : Int) (field : Option String)
    (nodes : List NodeId) (x : Nat) :
    ((d.spliceSlot p i field nodes).path x).node = (d.path x).node ∧
      ((d.spliceSlot p i field nodes).path x).parent = (d.path x).parent ∧
      (x ≠ p → ((d.spliceSlot p i field nodes).path x).cache = (d.path x).cache) := by
  by_cases hxp : x = p
  · subst hxp
    rw [h.path_owner]
    exact ⟨rfl, rfl, fun hne => absurd rfl hne⟩
  by_cases hx : ∃ k, (k, x) ∈ (d.path p).cache ∧ i < k
  · obtain ⟨k, hx, hk⟩ := hx
    rw [h.path_behind hx hk]
    exact ⟨rfl, rfl, fun _ => rfl⟩
  · rw [h.path_other hxp fun k hk => ?_]
    · exact ⟨rfl, rfl, fun _ => rfl⟩
    · by_contra hlt
      exact hx ⟨k, hk, by omega⟩

end Indexed

section Take

variable {d : Document} {roots : List PathId} {p : PathId} (h : d.Attached roots)
  (hp : d.Live roots p)

include h hp

theorem not_mem_own_cache (k : Int) : (k, p) ∉ (d.path p).cache := by
  intro he
  obtain ⟨_, -, hf⟩ := h.entry p k p hp he
  exact h.parent_ne_self hp hf.parent

theorem Attached.indexed : d.Indexed p where
  inRange := h.inRange p hp
  entries e he := h.inRange e.2 (.entry hp he)
  own := not_mem_own_cache h hp
  slot k x hx := by
    obtain ⟨j, rfl, hf⟩ := h.entry p k x hp hx
    exact hf.slot

end Take

theorem path_detach {d : Document} {q : Nat} (hq : q < d.paths.size) (x : Nat) :
    (d.detach q).path x =
      if x = q then { d.path x with parent := none, slot := none } else d.path x :=
  path_modifyPath d q x _ hq

section Taken

variable {d : Document} {roots : List PathId} {p q i : Nat} {field : Option String}
  {nodes : List NodeId}

variable (h : d.Attached roots) (hp : d.Live roots p) (he : ((i : Int), q) ∈ (d.path p).cache)

include h hp he

theorem fills_of_mem : d.Fills q p i := by
  obtain ⟨j, hj, hf⟩ := h.entry p i q hp he
  cases Int.ofNat_inj.1 hj
  exact hf

theorem path_taken_self : ((d.spliceSlot p i field nodes).detach q).path q =
    { d.path q with parent := none, slot := none } := by
  have hq := h.inRange q (.entry hp he)
  rw [path_detach (by simpa using hq), if_pos rfl, (h.indexed hp).path_other]
  · rintro rfl
    exact not_mem_own_cache h hp _ he
  · intro k hk
    obtain ⟨j, rfl, hf⟩ := h.entry p k q hp hk
    have := (fills_of_mem h hp he).slot.symm.trans hf.slot
    simp only [Option.some.injEq] at this
    omega

theorem path_taken {x : Nat} (hx : x ≠ q) :
    ((d.spliceSlot p i field nodes).detach q).path x = (d.spliceSlot p i field nodes).path x := by
  have hq := h.inRange q (.entry hp he)
  rw [path_detach (by simpa using hq), if_neg hx]

theorem node_taken (x : Nat) :
    (((d.spliceSlot p i field nodes).detach q).path x).node = (d.path x).node := by
  by_cases hx : x = q
  · subst hx
    rw [path_taken_self h hp he]
  · rw [path_taken h hp he hx]
    exact ((h.indexed hp).path_keeps _ _ _ x).1

theorem cache_taken {x : Nat} (hx : x ≠ p) :
    (((d.spliceSlot p i field nodes).detach q).path x).cache = (d.path x).cache := by
  by_cases hxq : x = q
  · subst hxq
    rw [path_taken_self h hp he]
  · rw [path_taken h hp he hxq]
    exact ((h.indexed hp).path_keeps _ _ _ x).2.2 hx

theorem cache_taken_owner : (((d.spliceSlot p i field nodes).detach q).path p).cache =
    (d.path p).cache.filterMap (movedEntry i ((nodes.length : Int) - 1)) := by
  have hne : p ≠ q := by
    rintro rfl
    exact not_mem_own_cache h hp _ he
  rw [path_taken h hp he hne, (h.indexed hp).path_owner]

/-- The child list that was spliced, seen from its owner. -/
theorem nodeAt_taken_owner : (((d.spliceSlot p i field nodes).detach q).nodeAt p).children =
    (d.nodeAt p).children.take i ++ nodes ++ (d.nodeAt p).children.drop (i + 1) := by
  have hi := (List.getElem?_eq_some_iff.1 (fills_of_mem h hp he).held).1
  unfold nodeAt
  rw [node_taken h hp he, forest_detach, node_spliceSlot hi, if_pos rfl]

theorem nodeAt_taken {y : Nat} (hy : (d.path y).node ≠ (d.path p).node) :
    ((d.spliceSlot p i field nodes).detach q).nodeAt y = d.nodeAt y := by
  have hi := (List.getElem?_eq_some_iff.1 (fills_of_mem h hp he).held).1
  unfold nodeAt
  rw [node_taken h hp he, forest_detach, node_spliceSlot hi, if_neg hy]

/-- Every path that was live still is, now that the path taken out is a root. -/
theorem live_taken {x : PathId} (hx : d.Live roots x) :
    ((d.spliceSlot p i field nodes).detach q).Live (q :: roots) x := by
  induction hx with
  | root hr => exact .root (List.mem_cons_of_mem _ hr)
  | @entry y k x hy hk ih =>
    by_cases hyp : y = p
    · subst hyp
      rcases lt_trichotomy k (i : Int) with hlt | rfl | hlt
      · refine .entry ih (k := k) ?_
        rw [cache_taken_owner h hp he]
        exact mem_moved.2 (.inl ⟨hlt, hk⟩)
      · refine .root ?_
        have := h.keys y hy
        rw [← Assoc.get?_eq_some_iff this] at hk he
        rw [Option.some.inj (hk.symm.trans he)]
        exact List.mem_cons_self
      · refine .entry ih (k := k + ((nodes.length : Int) - 1)) ?_
        rw [cache_taken_owner h hp he]
        exact mem_moved.2 (.inr ⟨k, hlt, hk, rfl⟩)
    · refine .entry ih (k := k) ?_
      rw [cache_taken h hp he hyp]
      exact hk

theorem live_of_taken {x : PathId}
    (hx : ((d.spliceSlot p i field nodes).detach q).Live (q :: roots) x) : d.Live roots x := by
  induction hx with
  | root hr =>
    rcases List.mem_cons.1 hr with rfl | hr
    · exact .entry hp he
    · exact .root hr
  | @entry y k x _ hk ih =>
    by_cases hyp : y = p
    · subst hyp
      rw [cache_taken_owner h hp he] at hk
      rcases mem_moved.1 hk with ⟨-, hk⟩ | ⟨k', -, hk, -⟩
      · exact .entry ih hk
      · exact .entry ih hk
    · rw [cache_taken h hp he hyp] at hk
      exact .entry ih hk

/-- A sibling of the path taken out fills its slot, which may have moved. -/
theorem fills_taken_sibling {k : Int} {x : Nat}
    (hk : (k, x) ∈ (d.path p).cache.filterMap (movedEntry i ((nodes.length : Int) - 1))) :
    ∃ j : Nat, k = j ∧ ((d.spliceSlot p i field nodes).detach q).Fills x p j := by
  have hq := fills_of_mem h hp he
  have hi := (List.getElem?_eq_some_iff.1 hq.held).1
  -- each path has one slot, and that of `q` is the one spliced
  have hone : ∀ {k' : Int}, (k', x) ∈ (d.path p).cache → ∃ j : Nat, k' = j ∧ d.Fills x p j ∧
      ∀ k'', (k'', x) ∈ (d.path p).cache → k'' = j := by
    intro k' hk'
    obtain ⟨j, rfl, hf⟩ := h.entry p k' x hp hk'
    refine ⟨j, rfl, hf, fun k'' hk'' => ?_⟩
    obtain ⟨j', rfl, hf'⟩ := h.entry p k'' x hp hk''
    exact Option.some.inj (hf'.slot.symm.trans hf.slot)
  have hxq : ∀ {j : Nat}, d.Fills x p j → j ≠ i → x ≠ q := by
    rintro j hf hj rfl
    have := hf.slot.symm.trans hq.slot
    simp only [Option.some.injEq] at this
    omega
  rcases mem_moved.1 hk with ⟨hlt, hm⟩ | ⟨k', hlt, hm, rfl⟩
  · obtain ⟨j, rfl, hf, hu⟩ := hone hm
    have hpath : ((d.spliceSlot p i field nodes).detach q).path x = d.path x := by
      rw [path_taken h hp he (hxq hf (by omega)), (h.indexed hp).path_other]
      · rintro rfl
        exact not_mem_own_cache h hp _ hm
      · intro k'' hk''
        have := hu k'' hk''
        omega
    refine ⟨j, rfl, by rw [hpath]; exact hf.parent, by rw [hpath]; exact hf.slot, ?_⟩
    rw [nodeAt_taken_owner h hp he, hpath, getElem?_splice_before (by omega) hi]
    exact hf.held
  · obtain ⟨j, rfl, hf, -⟩ := hone hm
    have hpath : ((d.spliceSlot p i field nodes).detach q).path x = _ :=
      path_taken h hp he (hxq hf (by omega))
    rw [(h.indexed hp).path_behind hm hlt] at hpath
    refine ⟨j + nodes.length - 1, by omega, by rw [hpath]; exact hf.parent, ?_, ?_⟩
    · rw [hpath]
      simp only [Option.some.injEq]
      omega
    · rw [nodeAt_taken_owner h hp he, hpath, getElem?_splice_behind (by omega) hi]
      exact hf.held

/-- A path that is no sibling of the one taken out fills its slot as before. -/
theorem fills_taken_other {x y j : Nat} (hy : y ≠ p)
    (hn : (d.path y).node ≠ (d.path p).node) (hf : d.Fills x y j) :
    ((d.spliceSlot p i field nodes).detach q).Fills x y j := by
  have hxp : ∀ k, (k, x) ∉ (d.path p).cache := by
    intro k hk
    obtain ⟨_, -, hf'⟩ := h.entry p k x hp hk
    exact hy (Option.some.inj (hf.parent.symm.trans hf'.parent))
  have hxq : x ≠ q := by
    rintro rfl
    exact hxp _ he
  have hslot : ((d.spliceSlot p i field nodes).path x).slot = (d.path x).slot := by
    by_cases hx : x = p
    · subst hx
      rw [(h.indexed hp).path_owner]
    · rw [(h.indexed hp).path_other hx fun k hk => absurd hk (hxp k)]
  refine ⟨?_, ?_, ?_⟩
  · rw [path_taken h hp he hxq, ((h.indexed hp).path_keeps _ _ _ x).2.1, hf.parent]
  · rw [path_taken h hp he hxq, hslot, hf.slot]
  · rw [nodeAt_taken h hp he hn, node_taken h hp he, hf.held]

/-- A path whose node is replaced is taken out and becomes a root, and the others stay attached, if
no other live path stands on the node that held it. -/
theorem Attached.take (hone : ∀ y, d.Live roots y → (d.path y).node = (d.path p).node → y = p) :
    ((d.spliceSlot p i field nodes).detach q).Attached (q :: roots) := by
  refine ⟨fun x hx => ?_, fun r hr => ?_, fun x hx => ?_, fun y k x hy hk => ?_⟩
  · rw [detach, size_modifyPath, size_spliceSlot]
    exact h.inRange x (live_of_taken h hp he hx)
  · rcases List.mem_cons.1 hr with rfl | hr
    · rw [path_taken_self h hp he]
      exact ⟨rfl, rfl⟩
    · obtain ⟨h1, h2⟩ := h.root r hr
      have hnot : ∀ k, (k, r) ∉ (d.path p).cache := by
        intro k hk
        obtain ⟨_, -, hf⟩ := h.entry p k r hp hk
        cases h1.symm.trans hf.parent
      have hrq : r ≠ q := by
        rintro rfl
        exact hnot _ he
      rw [path_taken h hp he hrq]
      by_cases hrp : r = p
      · subst hrp
        rw [(h.indexed hp).path_owner]
        exact ⟨h1, h2⟩
      · rw [(h.indexed hp).path_other hrp fun k hk => absurd hk (hnot k)]
        exact ⟨h1, h2⟩
  · by_cases hxp : x = p
    · subst hxp
      rw [cache_taken_owner h hp he]
      exact nodup_keys_moved (by omega) (h.keys x hp)
    · rw [cache_taken h hp he hxp]
      exact h.keys x (live_of_taken h hp he hx)
  · have hy := live_of_taken h hp he hy
    by_cases hyp : y = p
    · rw [hyp, cache_taken_owner h hp he] at hk
      subst hyp
      exact fills_taken_sibling h hp he hk
    · rw [cache_taken h hp he hyp] at hk
      obtain ⟨j, rfl, hf⟩ := h.entry y k x hy hk
      exact ⟨j, rfl, fills_taken_other h hp he hyp (fun hn => hyp (hone y hy hn)) hf⟩

end Taken

/-! ## Putting the path back -/

/-- A root that is put on a node its new parent holds, in a slot not cached before, is attached
there. -/
theorem Attached.join {d d' : Document} {roots : List PathId} {p q i : Nat} {n : NodeId}
    (h : d.Attached (q :: roots)) (hq : q ∉ roots) (hp : d.Live (q :: roots) p) (hpq : p ≠ q)
    (hn : (d.nodeAt p).children[i]? = some n) (hforest : d'.forest = d.forest)
    (hsize : d'.paths.size = d.paths.size)
    (hself : d'.path q = ⟨n, some p, some (i : Int), []⟩)
    (howner : d'.path p = { d.path p with cache := Assoc.insert (d.path p).cache i q })
    (hother : ∀ x, x ≠ q → x ≠ p → d'.path x = d.path x) : d'.Attached roots := by
  have hkeep : ∀ x, x ≠ q → (d'.path x).node = (d.path x).node ∧
      (d'.path x).parent = (d.path x).parent ∧ (d'.path x).slot = (d.path x).slot := by
    intro x hx
    by_cases hxp : x = p
    · subst hxp
      rw [howner]
      exact ⟨rfl, rfl, rfl⟩
    · rw [hother x hx hxp]
      exact ⟨rfl, rfl, rfl⟩
  have hcache : ∀ {x k y}, x ≠ q → (k, y) ∈ (d'.path x).cache →
      (k, y) ∈ (d.path x).cache ∨ (x = p ∧ k = i ∧ y = q) := by
    intro x k y hx hk
    by_cases hxp : x = p
    · subst hxp
      rw [howner] at hk
      rcases (mem_insert (h.keys x hp)).1 hk with ⟨rfl, rfl⟩ | ⟨-, hk⟩
      · exact .inr ⟨rfl, rfl, rfl⟩
      · exact .inl hk
    · rw [hother x hx hxp] at hk
      exact .inl hk
  have hempty : ∀ {k y}, (k, y) ∉ (d'.path q).cache := by
    intro k y hk
    rw [hself] at hk
    cases hk
  have hlive : ∀ {x}, d'.Live roots x → d.Live (q :: roots) x := by
    intro x hx
    induction hx with
    | root hr => exact .root (List.mem_cons_of_mem _ hr)
    | @entry y k x _ hk ih =>
      by_cases hyq : y = q
      · subst hyq
        exact absurd hk hempty
      · rcases hcache hyq hk with hk | ⟨-, -, rfl⟩
        · exact .entry ih hk
        · exact .root List.mem_cons_self
  refine ⟨fun x hx => ?_, fun r hr => ?_, fun x hx => ?_, fun y k x hy hk => ?_⟩
  · rw [hsize]
    exact h.inRange x (hlive hx)
  · have hrq : r ≠ q := by
      rintro rfl
      exact hq hr
    rw [(hkeep r hrq).2.1, (hkeep r hrq).2.2]
    exact h.root r (List.mem_cons_of_mem _ hr)
  · by_cases hxq : x = q
    · subst hxq
      rw [hself]
      exact List.nodup_nil
    · by_cases hxp : x = p
      · subst hxp
        rw [howner]
        exact Assoc.nodup_keys_insert (h.keys x hp) _ _
      · rw [hother x hxq hxp]
        exact h.keys x (hlive hx)
  · by_cases hyq : y = q
    · subst hyq
      exact absurd hk hempty
    have hnode : d'.nodeAt y = d.nodeAt y := by
      unfold nodeAt
      rw [(hkeep y hyq).1, hforest]
    rcases hcache hyq hk with hk | ⟨rfl, rfl, rfl⟩
    · obtain ⟨j, rfl, hf⟩ := h.entry y k x (hlive hy) hk
      have hxq : x ≠ q := by
        rintro rfl
        have := (h.root x List.mem_cons_self).1
        rw [hf.parent] at this
        cases this
      obtain ⟨h1, h2, h3⟩ := hkeep x hxq
      exact ⟨j, rfl, h2.trans hf.parent, h3.trans hf.slot, by rw [hnode, h1]; exact hf.held⟩
    · exact ⟨i, rfl, by rw [hself], by rw [hself], by rw [hnode, hself]; exact hn⟩

theorem path_retarget {d : Document} {q : Nat} (hq : q < d.paths.size) (n : NodeId) (x : Nat) :
    (d.retarget q n).path x =
      if x = q then { d.path x with node := n, cache := [] } else d.path x :=
  path_modifyPath d q x _ hq

theorem path_enter {d : Document} {p : Nat} (hp : p < d.paths.size) (q : PathId) (slot : Int)
    (x : Nat) : (d.enter q p slot).path x =
      if x = p then { d.path x with cache := Assoc.insert (d.path x).cache slot q } else d.path x :=
  path_modifyPath d p x _ hp

section Seat

variable {d : Document} {roots : List PathId} {p q i : Nat} {n : NodeId} {rest : List NodeId}
  {field : Option String}

variable (h : d.Attached roots) (hp : d.Live roots p) (he : ((i : Int), q) ∈ (d.path p).cache)

include h hp he

/-- The path table after a path was put on the first of the nodes in the place of its own. -/
theorem path_seated (x : Nat) :
    (((d.spliceSlot p i field (n :: rest)).retarget q n).enter q p i).path x =
      if x = p then { (d.spliceSlot p i field (n :: rest)).path p with
        cache := Assoc.insert ((d.spliceSlot p i field (n :: rest)).path p).cache i q }
      else if x = q then ⟨n, some p, some (i : Int), []⟩
      else (d.spliceSlot p i field (n :: rest)).path x := by
  have hpr := h.inRange p hp
  have hqr := h.inRange q (.entry hp he)
  have hpq : p ≠ q := by
    rintro rfl
    exact not_mem_own_cache h hp _ he
  have hq := fills_of_mem h hp he
  have hslot : ((d.spliceSlot p i field (n :: rest)).path q).slot = some (i : Int) := by
    rw [(h.indexed hp).path_other hpq.symm, hq.slot]
    intro k hk
    obtain ⟨j, rfl, hf⟩ := h.entry p k q hp hk
    have := hq.slot.symm.trans hf.slot
    simp only [Option.some.injEq] at this
    omega
  rw [path_enter (by simpa [retarget] using hpr), path_retarget (by simpa using hqr)]
  by_cases hxp : x = p
  · subst hxp
    rw [if_pos rfl, if_pos rfl, if_neg hpq]
  · rw [if_neg hxp, if_neg hxp]
    by_cases hxq : x = q
    · subst hxq
      rw [if_pos rfl, if_pos rfl, Path.mk.injEq]
      exact ⟨rfl, ((h.indexed hp).path_keeps _ _ _ x).2.1.trans hq.parent, hslot, rfl⟩
    · rw [if_neg hxq, if_neg hxq]

theorem node_seated {x : Nat} (hx : x ≠ q) :
    ((((d.spliceSlot p i field (n :: rest)).retarget q n).enter q p i).path x).node =
      (d.path x).node := by
  have hkeep : ((d.spliceSlot p i field (n :: rest)).path x).node = (d.path x).node :=
    ((h.indexed hp).path_keeps _ _ _ x).1
  rw [path_seated h hp he, if_neg hx]
  split_ifs with hxp
  · subst hxp
    exact hkeep
  · exact hkeep

/-- A path that moves to the first of the nodes in the place of its own fills its slot, and the
others stay attached. -/
theorem Attached.seat (hone : ∀ y, d.Live roots y → (d.path y).node = (d.path p).node → y = p) :
    (((d.spliceSlot p i field (n :: rest)).retarget q n).enter q p i).Attached roots := by
  have hpq : p ≠ q := by
    rintro rfl
    exact not_mem_own_cache h hp _ he
  have hq := fills_of_mem h hp he
  have hi := (List.getElem?_eq_some_iff.1 hq.held).1
  have hroot : q ∉ roots := by
    intro hr
    cases (h.root q hr).1.symm.trans hq.parent
  have htake : ((d.spliceSlot p i field (n :: rest)).detach q).Attached (q :: roots) :=
    h.take hp he hone
  refine htake.join (i := i) (n := n) hroot (live_taken h hp he hp) hpq ?_ (by simp) ?_ ?_ ?_ ?_
  · rw [nodeAt_taken_owner h hp he, List.append_assoc, List.getElem?_append_right (by simp),
      List.length_take, Nat.min_eq_left (by omega), Nat.sub_self]
    rfl
  · simp [enter, retarget, detach]
  · rw [path_seated h hp he, if_neg hpq.symm, if_pos rfl]
  · rw [path_seated h hp he, if_pos rfl, path_taken h hp he hpq]
  · intro x hxq hxp
    rw [path_seated h hp he, if_neg hxp, if_neg hxq, path_taken h hp he hxq]

theorem nodeAt_seated_owner :
    ((((d.spliceSlot p i field (n :: rest)).retarget q n).enter q p i).nodeAt p).children =
      (d.nodeAt p).children.take i ++ (n :: rest) ++ (d.nodeAt p).children.drop (i + 1) := by
  have hpq : p ≠ q := by
    rintro rfl
    exact not_mem_own_cache h hp _ he
  rw [← nodeAt_taken_owner h hp he]
  unfold nodeAt
  rw [node_seated h hp he hpq, node_taken h hp he, forest_enter, forest_retarget, forest_detach]

/-- A path is still live unless it was reached through the path that moved. -/
theorem live_seated {x : PathId} (hx : d.Live roots x) (hn : ¬ d.Live [q] x) :
    (((d.spliceSlot p i field (n :: rest)).retarget q n).enter q p i).Live roots x := by
  induction hx with
  | root hr => exact .root hr
  | @entry y k x hy hk ih =>
    have hyq : ¬ d.Live [q] y := fun hy => hn (.entry hy hk)
    have hxq : x ≠ q := by
      rintro rfl
      exact hn (.root List.mem_cons_self)
    have hne : y ≠ q := by
      rintro rfl
      exact hyq (.root List.mem_cons_self)
    by_cases hyp : y = p
    · subst hyp
      have hki : k ≠ i := by
        rintro rfl
        have hkeys := h.keys y hy
        rw [← Assoc.get?_eq_some_iff hkeys] at hk he
        exact hxq (Option.some.inj (hk.symm.trans he))
      have hmoved : ∃ k', k' ≠ (i : Int) ∧ (k', x) ∈
          (d.path y).cache.filterMap (movedEntry i (((n :: rest).length : Int) - 1)) := by
        rcases lt_or_gt_of_ne hki with hlt | hlt
        · exact ⟨k, hki, mem_moved.2 (.inl ⟨hlt, hk⟩)⟩
        · exact ⟨_, by simp only [List.length_cons]; omega, mem_moved.2 (.inr ⟨k, hlt, hk, rfl⟩)⟩
      obtain ⟨k', hk', hm⟩ := hmoved
      refine .entry (ih hyq) (k := k') ?_
      rw [path_seated h hp he, if_pos rfl, (h.indexed hp).path_owner]
      exact (mem_insert (nodup_keys_moved (by omega) (h.keys y hy))).2 (.inr ⟨hk', hm⟩)
    · refine .entry (ih hyq) (k := k) ?_
      rw [path_seated h hp he, if_neg hyp, if_neg hne, ((h.indexed hp).path_keeps _ _ _ y).2.2 hyp]
      exact hk

end Seat

/-- A root path may be put on any node. -/
theorem Attached.retarget {d : Document} {roots : List PathId} (h : d.Attached roots) {q : Nat}
    (hq : q ∈ roots) (n : NodeId) : (d.retarget q n).Attached roots := by
  have hpath := path_retarget (h.inRange q (.root hq)) n
  have hcache : ∀ {x k y}, (k, y) ∈ ((d.retarget q n).path x).cache →
      x ≠ q ∧ (k, y) ∈ (d.path x).cache := by
    intro x k y hk
    rw [hpath] at hk
    split_ifs at hk with hx
    · cases hk
    · exact ⟨hx, hk⟩
  have hlive : ∀ {x}, (d.retarget q n).Live roots x → d.Live roots x := by
    intro x hx
    induction hx with
    | root hr => exact .root hr
    | entry _ hk ih => exact .entry ih (hcache hk).2
  refine ⟨fun x hx => ?_, fun r hr => ?_, fun x hx => ?_, fun y k x hy hk => ?_⟩
  · rw [Document.retarget, size_modifyPath]
    exact h.inRange x (hlive hx)
  · rw [hpath]
    split_ifs <;> exact h.root r hr
  · rw [hpath]
    split_ifs
    · exact List.nodup_nil
    · exact h.keys x (hlive hx)
  · obtain ⟨hyq, hk⟩ := hcache hk
    obtain ⟨j, rfl, hf⟩ := h.entry y k x (hlive hy) hk
    have hxq : x ≠ q := by
      rintro rfl
      cases (h.root x hq).1.symm.trans hf.parent
    have hnode : (d.retarget q n).nodeAt y = d.nodeAt y := by
      unfold nodeAt
      rw [hpath, if_neg hyq]
      rfl
    refine ⟨j, rfl, ?_, ?_, ?_⟩
    · rw [hpath, if_neg hxq, hf.parent]
    · rw [hpath, if_neg hxq, hf.slot]
    · rw [hnode, hpath, if_neg hxq, hf.held]

end Retouch.Document
