import Retouch.Edit
import Retouch.Proofs.Descent

/-!
# Paths attached to their slots

A path is live if it can be reached from given root paths through the caches. The paths are attached
if every live path in a cache names the cache's owner as its parent and its key there as its slot,
and if that slot of the parent's node holds the path's node. Asking for children keeps this, and so
does replacing the node of a path, where the path that is taken out becomes a root of its own
(`Attached.take`, `Attached.seat`).

Putting nodes into a slot changes one child list. Only the paths over that node must hear of it, so
a node that is changed must not stand under two live paths; `Attached.eq_of_node_eq` says when it
does not.
-/

namespace Retouch.Document

/-! ## Caches -/

section Caches

variable {cache : List (Int × PathId)} {slot delta : Int}

theorem mem_insert {entries : List (Int × PathId)} (hn : (Assoc.keys entries).Nodup) {k x : Int}
    {p q : PathId} : (x, q) ∈ Assoc.insert entries k p ↔
      (x = k ∧ q = p) ∨ (x ≠ k ∧ (x, q) ∈ entries) := by
  rw [← Assoc.get?_eq_some_iff (Assoc.nodup_keys_insert hn k p), Assoc.get?_insert,
    ← Assoc.get?_eq_some_iff hn]
  by_cases h : k = x
  · subst h
    simp [eq_comm]
  · have h' : ¬ x = k := fun e => h e.symm
    simp [h, h']

theorem mem_moved {k : Int} {q : PathId} : (k, q) ∈ cache.filterMap (movedEntry slot delta) ↔
    (k < slot ∧ (k, q) ∈ cache) ∨ ∃ k', slot < k' ∧ (k', q) ∈ cache ∧ k = k' + delta := by
  simp only [List.mem_filterMap, movedEntry]
  constructor
  · rintro ⟨⟨k', q'⟩, hm, he⟩
    split_ifs at he with h1 h2
    · cases he
      exact .inl ⟨h1, hm⟩
    · cases he
      exact .inr ⟨k', h2, hm, rfl⟩
  · rintro (⟨h, hm⟩ | ⟨k', h, hm, rfl⟩)
    · exact ⟨_, hm, by rw [if_pos h]⟩
    · exact ⟨_, hm, by rw [if_neg (by omega), if_pos h]⟩

/-- Paths that move up by one slot at most do not run into those before them. -/
theorem nodup_keys_moved (hd : -1 ≤ delta) : ∀ {cache : List (Int × PathId)},
    (Assoc.keys cache).Nodup → (Assoc.keys (cache.filterMap (movedEntry slot delta))).Nodup
  | [], _ => List.nodup_nil
  | (k, q) :: rest, h => by
    obtain ⟨hk, hrest⟩ := List.nodup_cons.1 h
    have ih := nodup_keys_moved hd hrest
    have hnot : ∀ {k' q'}, (k', q') ∈ rest → k' ≠ k := by
      rintro k' q' hm rfl
      exact hk (List.mem_map.2 ⟨_, hm, rfl⟩)
    have hnew : ∀ {k'}, k' ∈ Assoc.keys (rest.filterMap (movedEntry slot delta)) →
        (k' < slot ∧ k' ≠ k) ∨ ∃ k'', slot < k'' ∧ k'' ≠ k ∧ k' = k'' + delta := by
      intro k' hm
      obtain ⟨e, he, rfl⟩ := List.mem_map.1 hm
      rcases mem_moved.1 he with ⟨h1, hm⟩ | ⟨k'', h1, hm, h2⟩
      · exact .inl ⟨h1, hnot hm⟩
      · exact .inr ⟨k'', h1, hnot hm, h2⟩
    rw [List.filterMap_cons]
    simp only [movedEntry]
    split_ifs with h1 h2
    · refine List.nodup_cons.2 ⟨fun hm => ?_, ih⟩
      rcases hnew hm with ⟨-, h3⟩ | ⟨k'', h3, -, h4⟩
      · exact h3 rfl
      · simp only at h4
        omega
    · refine List.nodup_cons.2 ⟨fun hm => ?_, ih⟩
      rcases hnew hm with ⟨h3, -⟩ | ⟨k'', h3, h4, h5⟩
      · simp only at h3
        omega
      · simp only at h5
        omega
    · exact ih

@[simp]
theorem forest_moveBehind (slot delta : Int) : ∀ (cache : List (Int × PathId)) (d : Document),
    (d.moveBehind cache slot delta).forest = d.forest
  | [], _ => rfl
  | e :: rest, d => by
    unfold moveBehind
    rw [List.foldl_cons]
    refine (forest_moveBehind slot delta rest _).trans ?_
    split_ifs <;> rfl

@[simp]
theorem size_moveBehind (slot delta : Int) : ∀ (cache : List (Int × PathId)) (d : Document),
    (d.moveBehind cache slot delta).paths.size = d.paths.size
  | [], _ => rfl
  | e :: rest, d => by
    unfold moveBehind
    rw [List.foldl_cons]
    refine (size_moveBehind slot delta rest _).trans ?_
    split_ifs
    · exact size_modifyPath _ _ _
    · rfl

/-- A path that is not cached behind the slot stays as it is. -/
theorem path_moveBehind_of_not (slot delta : Int) (x : Nat) :
    ∀ (cache : List (Int × PathId)) (d : Document), (∀ e ∈ cache, e.2 < d.paths.size) →
    (∀ k, (k, x) ∈ cache → k ≤ slot) → (d.moveBehind cache slot delta).path x = d.path x
  | [], _, _, _ => rfl
  | e :: rest, d, hin, hx => by
    have hrest : ∀ k, (k, x) ∈ rest → k ≤ slot := fun k h => hx k (List.mem_cons_of_mem _ h)
    unfold moveBehind
    rw [List.foldl_cons]
    refine (path_moveBehind_of_not slot delta x rest _ ?_ hrest).trans ?_
    · intro e' he'
      have := hin e' (List.mem_cons_of_mem _ he')
      split_ifs
      · rwa [size_modifyPath]
      · exact this
    · split_ifs with hlt
      · rw [path_modifyPath _ _ _ _ (hin e List.mem_cons_self), if_neg]
        rintro rfl
        have := hx e.1 List.mem_cons_self
        omega
      · rfl

/-- A path cached behind the slot hears of its new one. -/
theorem path_moveBehind_of_mem (slot delta : Int) (x : Nat) {k : Int} (hk : slot < k) :
    ∀ (cache : List (Int × PathId)) (d : Document), (∀ e ∈ cache, e.2 < d.paths.size) →
    (k, x) ∈ cache → (∀ k', (k', x) ∈ cache → k' = k) →
    (d.moveBehind cache slot delta).path x = { d.path x with slot := some (k + delta) }
  | e :: rest, d, hin, hm, hx => by
    have hrest : ∀ k', (k', x) ∈ rest → k' = k := fun k h => hx k (List.mem_cons_of_mem _ h)
    set d1 := if slot < e.1 then
      d.modifyPath e.2 fun x => { x with slot := some (e.1 + delta) } else d with hd1
    have hin1 : ∀ e' ∈ rest, e'.2 < d1.paths.size := by
      intro e' he'
      have := hin e' (List.mem_cons_of_mem _ he')
      rw [hd1]
      split_ifs
      · rwa [size_modifyPath]
      · exact this
    change (d1.moveBehind rest slot delta).path x = _
    have hpath : d1.path x = if slot < e.1 ∧ x = e.2 then
        { d.path x with slot := some (e.1 + delta) } else d.path x := by
      rw [hd1]
      split_ifs with h1 h2
      · rw [path_modifyPath _ _ _ _ (hin e List.mem_cons_self), if_pos h2.2]
      · rw [path_modifyPath _ _ _ _ (hin e List.mem_cons_self), if_neg fun h => h2 ⟨h1, h⟩]
      · omega
      · rfl
    by_cases hr : (k, x) ∈ rest
    · rw [path_moveBehind_of_mem slot delta x hk rest d1 hin1 hr hrest, hpath]
      split_ifs <;> rfl
    · have he : e = (k, x) := by
        rcases List.mem_cons.1 hm with h | h
        · exact h.symm
        · exact absurd h hr
      subst he
      have hnot : ∀ k', (k', x) ∈ rest → k' ≤ slot := by
        intro k' h
        rw [hrest k' h] at h
        exact absurd h hr
      rw [path_moveBehind_of_not slot delta x rest d1 hin1 hnot, hpath, if_pos ⟨hk, rfl⟩]

end Caches

/-! ## Liveness -/

/-- A path that can be reached from the roots through the caches. -/
inductive Live (d : Document) (roots : List PathId) : PathId → Prop
  | root {r : PathId} : r ∈ roots → d.Live roots r
  | entry {p : PathId} {k : Int} {q : PathId} : d.Live roots p → (k, q) ∈ (d.path p).cache →
    d.Live roots q

/-- The path `q` fills the slot `i` of the path `p`: it says so itself, and the slot holds its
node. -/
structure Fills (d : Document) (q p : PathId) (i : Nat) : Prop where
  parent : (d.path q).parent = some p
  slot : (d.path q).slot = some (i : Int)
  held : (d.nodeAt p).children[i]? = some (d.path q).node

/-- Every live path fills the slot under which its parent knows it. -/
structure Attached (d : Document) (roots : List PathId) : Prop where
  inRange : ∀ p, d.Live roots p → p < d.paths.size
  root : ∀ r ∈ roots, (d.path r).parent = none ∧ (d.path r).slot = none
  keys : ∀ p, d.Live roots p → (Assoc.keys (d.path p).cache).Nodup
  entry : ∀ p k q, d.Live roots p → (k, q) ∈ (d.path p).cache → ∃ i : Nat, k = i ∧ d.Fills q p i

theorem Live.mono {d : Document} {roots roots' : List PathId} (hs : roots ⊆ roots') {p : PathId}
    (h : d.Live roots p) : d.Live roots' p := by
  induction h with
  | root hr => exact .root (hs hr)
  | entry _ he ih => exact .entry ih he

theorem Attached.mono {d : Document} {roots roots' : List PathId} (h : d.Attached roots')
    (hs : roots ⊆ roots') : d.Attached roots where
  inRange p hp := h.inRange p (hp.mono hs)
  root r hr := h.root r (hs hr)
  keys p hp := h.keys p (hp.mono hs)
  entry p k q hp := h.entry p k q (hp.mono hs)

theorem live_of_paths {d d' : Document} {roots : List PathId} (h : d'.paths = d.paths) {p : PathId}
    (hp : d'.Live roots p) : d.Live roots p := by
  induction hp with
  | root hr => exact .root hr
  | @entry p k q _ he ih =>
    have hpath : d'.path p = d.path p := by unfold path; rw [h]
    exact .entry ih (hpath ▸ he)

/-- Paths stay attached while the child lists of their nodes are the same. -/
theorem Attached.of_children {d d' : Document} {roots : List PathId} (h : d.Attached roots)
    (hpaths : d'.paths = d.paths)
    (hc : ∀ p, d.Live roots p → (d'.nodeAt p).children = (d.nodeAt p).children) :
    d'.Attached roots := by
  have hpath : ∀ p, d'.path p = d.path p := fun p => by unfold path; rw [hpaths]
  refine ⟨fun p hp => ?_, fun r hr => ?_, fun p hp => ?_, fun p k q hp he => ?_⟩
  · rw [hpaths]
    exact h.inRange p (live_of_paths hpaths hp)
  · rw [hpath]
    exact h.root r hr
  · rw [hpath]
    exact h.keys p (live_of_paths hpaths hp)
  · have hp := live_of_paths hpaths hp
    rw [hpath] at he
    obtain ⟨i, rfl, hf⟩ := h.entry p k q hp he
    exact ⟨i, rfl, by rw [hpath, hf.parent], by rw [hpath, hf.slot],
      by rw [hc p hp, hpath, hf.held]⟩

namespace Attached

variable {d : Document} {roots : List PathId}

/-- A live path is a root, or fills a slot of a live path that knows it. -/
theorem cases (h : d.Attached roots) {q : PathId} (hq : d.Live roots q) :
    q ∈ roots ∨ ∃ p, ∃ i : Nat, d.Live roots p ∧ ((i : Int), q) ∈ (d.path p).cache ∧
      d.Fills q p i := by
  cases hq with
  | root hr => exact .inl hr
  | entry hp he =>
    obtain ⟨i, rfl, hf⟩ := h.entry _ _ _ hp he
    exact .inr ⟨_, i, hp, he, hf⟩

theorem parent_ne_self (h : d.Attached roots) {q : PathId} (hq : d.Live roots q) :
    (d.path q).parent ≠ some q := by
  induction hq with
  | root hr => simp [(h.root _ hr).1]
  | entry hp he ih =>
    obtain ⟨i, -, hf⟩ := h.entry _ _ _ hp he
    rw [hf.parent]
    rintro hs
    cases hs
    exact ih hf.parent

/-- A path with a parent is known to it under its slot. -/
theorem known (h : d.Attached roots) {q p : PathId} (hq : d.Live roots q)
    (hp : (d.path q).parent = some p) :
    ∃ i : Nat, d.Live roots p ∧ ((i : Int), q) ∈ (d.path p).cache ∧ d.Fills q p i := by
  rcases h.cases hq with hr | ⟨p', i, hp', he, hf⟩
  · rw [(h.root q hr).1] at hp
    cases hp
  · rw [hf.parent] at hp
    cases hp
    exact ⟨i, hp', he, hf⟩

/-- No path is reached from one of those it knows: going up from it leads to a root. -/
theorem not_live_under_child (h : d.Attached roots) {p q : PathId} {k : Int}
    (hp : d.Live roots p) (he : (k, q) ∈ (d.path p).cache) : ¬ d.Live [q] p := by
  intro hpq
  have hq : d.Live roots q := .entry hp he
  have hlive : ∀ {x}, d.Live [q] x → d.Live roots x := by
    intro x hx
    induction hx with
    | root hr => exact List.mem_singleton.1 hr ▸ hq
    | entry _ he ih => exact .entry ih he
  -- the parent of a path reached from `q` is reached from `q` as well
  have hup : ∀ {x}, d.Live [q] x → ∃ y, d.Live [q] y ∧ (d.path x).parent = some y := by
    intro x hx
    cases hx with
    | root hr =>
      cases List.mem_singleton.1 hr
      obtain ⟨_, -, hf⟩ := h.entry p k q hp he
      exact ⟨p, hpq, hf.parent⟩
    | entry hy he =>
      obtain ⟨_, -, hf⟩ := h.entry _ _ _ (hlive hy) he
      exact ⟨_, hy, hf.parent⟩
  have hnone : ∀ {x}, d.Live roots x → ¬ d.Live [q] x := by
    intro x hx
    induction hx with
    | root hr =>
      intro hx
      obtain ⟨y, -, hy⟩ := hup hx
      cases (h.root _ hr).1.symm.trans hy
    | entry hy he ih =>
      intro hx
      obtain ⟨z, hz, hpz⟩ := hup hx
      obtain ⟨_, -, hf⟩ := h.entry _ _ _ hy he
      cases hf.parent.symm.trans hpz
      exact ih hz
  exact hnone hp hpq

/-- The node of a live path lies below that of a root. -/
theorem below (h : d.Attached roots) {q : PathId} (hq : d.Live roots q) :
    ∃ r ∈ roots, d.forest.Below (d.path r).node (d.path q).node := by
  induction hq with
  | root hr => exact ⟨_, hr, .refl _⟩
  | entry hp he ih =>
    obtain ⟨r, hr, hb⟩ := ih
    obtain ⟨i, -, hf⟩ := h.entry _ _ _ hp he
    exact ⟨r, hr, hb.child (List.mem_of_getElem? hf.held)⟩

end Attached

/-! ## Nodes under one path -/

/-- Each watched node stands in one slot at most of what lies below the tops, in that of a watched
node, and no watched top stands in any. -/
structure Single (f : Forest) (tops : List NodeId) (watched : NodeId → Prop) : Prop where
  up : ∀ t ∈ tops, ∀ x c, f.Below t x → c ∈ (f.node x).children → watched c → watched x
  slot : ∀ t ∈ tops, ∀ t' ∈ tops, ∀ x y c, ∀ i j : Nat, f.Below t x → f.Below t' y → watched c →
    (f.node x).children[i]? = some c → (f.node y).children[j]? = some c → x = y ∧ i = j
  top : ∀ t ∈ tops, ∀ t' ∈ tops, ∀ x, f.Below t x → watched t' → t' ∉ (f.node x).children

/-- Where watched nodes are single, no two live paths stand on one of them. -/
theorem Attached.eq_of_node_eq {d : Document} {roots : List PathId} {watched : NodeId → Prop}
    (h : d.Attached roots)
    (hs : Single d.forest (roots.map fun r => (d.path r).node) watched)
    (hr : ∀ r ∈ roots, ∀ r' ∈ roots, (d.path r).node = (d.path r').node → r = r')
    {p q : PathId} (hp : d.Live roots p) (hq : d.Live roots q)
    (hn : (d.path p).node = (d.path q).node) (hw : watched (d.path p).node) : p = q := by
  have htop : ∀ {r}, r ∈ roots → (d.path r).node ∈ roots.map fun r => (d.path r).node :=
    fun hr => List.mem_map_of_mem hr
  -- a root is not held by any node, so a path on its node is a root too
  have hroot : ∀ {r}, r ∈ roots → watched (d.path r).node → ∀ {q}, d.Live roots q →
      (d.path r).node = (d.path q).node → r = q := by
    intro r hmem hw q hq hn
    rcases h.cases hq with hq | ⟨b, j, hb, -, hf⟩
    · exact hr r hmem q hq hn
    · obtain ⟨r', hr', hbelow⟩ := h.below hb
      refine absurd ?_ (hs.top _ (htop hr') _ (htop hmem) _ hbelow hw)
      rw [hn]
      exact List.mem_of_getElem? hf.held
  induction hp generalizing q with
  | root hmem => exact hroot hmem hw hq hn
  | @entry a k p ha he ih =>
    obtain ⟨i, rfl, hf⟩ := h.entry _ _ _ ha he
    rcases h.cases hq with hmem | ⟨b, j, hb, he', hf'⟩
    · exact (hroot hmem (hn ▸ hw) (.entry ha he) hn.symm).symm
    · obtain ⟨r, hr1, hra⟩ := h.below ha
      obtain ⟨r', hr2, hrb⟩ := h.below hb
      obtain ⟨hab, rfl⟩ := hs.slot _ (htop hr1) _ (htop hr2) _ _ _ i j hra hrb hw hf.held
        (hn ▸ hf'.held)
      have hwa := hs.up _ (htop hr1) _ _ hra (List.mem_of_getElem? hf.held) hw
      cases ih hb hab hwa
      have hk := h.keys a ha
      rw [← Assoc.get?_eq_some_iff hk] at he he'
      rw [he] at he'
      exact Option.some.inj he'

/-! ## Looking -/

/-- Only new paths have come, and into caches. -/
structure Grown (d d' : Document) : Prop where
  forest : d'.forest = d.forest
  size : d.paths.size ≤ d'.paths.size
  node : ∀ x < d.paths.size, (d'.path x).node = (d.path x).node
  parent : ∀ x < d.paths.size, (d'.path x).parent = (d.path x).parent
  slot : ∀ x < d.paths.size, (d'.path x).slot = (d.path x).slot
  cache : ∀ x < d.paths.size, (d.path x).cache ⊆ (d'.path x).cache

theorem Grown.refl (d : Document) : Grown d d :=
  ⟨rfl, le_rfl, fun _ _ => rfl, fun _ _ => rfl, fun _ _ => rfl, fun _ _ => List.Subset.refl _⟩

theorem Grown.trans {a b c : Document} (h : Grown a b) (h' : Grown b c) : Grown a c where
  forest := h'.forest.trans h.forest
  size := h.size.trans h'.size
  node x hx := (h'.node x (hx.trans_le h.size)).trans (h.node x hx)
  parent x hx := (h'.parent x (hx.trans_le h.size)).trans (h.parent x hx)
  slot x hx := (h'.slot x (hx.trans_le h.size)).trans (h.slot x hx)
  cache x hx := List.Subset.trans (h.cache x hx) (h'.cache x (hx.trans_le h.size))

theorem Grown.live {d d' : Document} {roots : List PathId} (hg : Grown d d')
    (h : d.Attached roots) {p : PathId} (hp : d.Live roots p) : d'.Live roots p := by
  induction hp with
  | root hr => exact .root hr
  | entry hp he ih => exact .entry ih (hg.cache _ (h.inRange _ hp) he)

theorem Grown.fills {d d' : Document} (hg : Grown d d') {q p : PathId} {i : Nat}
    (hq : q < d.paths.size) (hp : p < d.paths.size) (hf : d.Fills q p i) : d'.Fills q p i where
  parent := (hg.parent q hq).trans hf.parent
  slot := (hg.slot q hq).trans hf.slot
  held := by
    unfold nodeAt
    rw [hg.node p hp, hg.node q hq, hg.forest]
    exact hf.held

section Attach

variable {d : Document} {roots : List PathId} {p i : Nat} {n : NodeId}

theorem path_attach_new (hp : p < d.paths.size) (slot : Int) :
    (d.attach n p slot).2.path d.paths.size = ⟨n, some p, some slot, []⟩ := by
  rw [path_attach _ _ _ _ hp, if_pos rfl]

theorem path_attach_old (hp : p < d.paths.size) (slot : Int) {x : Nat} (hx : x < d.paths.size) :
    (d.attach n p slot).2.path x = { d.path x with
      cache := if x = p then Assoc.insert (d.path x).cache slot d.paths.size
        else (d.path x).cache } := by
  rw [path_attach _ _ _ _ hp, if_neg (Nat.ne_of_lt hx)]
  split_ifs <;> rfl

variable (h : d.Attached roots) (hp : d.Live roots p)

include h hp

theorem grown_attach (hc : Assoc.get? (d.path p).cache i = none) :
    Grown d (d.attach n p i).2 := by
  have hpr := h.inRange p hp
  refine ⟨rfl, by simp, ?_, ?_, ?_, ?_⟩
  all_goals
    intro x hx
    rw [path_attach_old hpr _ hx]
  simp only
  split_ifs with hxp
  · subst hxp
    rintro ⟨k, q⟩ he
    refine (mem_insert (h.keys x hp)).2 (.inr ⟨?_, he⟩)
    rintro rfl
    rw [← Assoc.get?_eq_some_iff (h.keys x hp), hc] at he
    cases he
  · exact List.Subset.refl _

/-- An entry of a cache was there before, or is the new one. -/
theorem mem_cache_attach {x q : Nat} {k : Int} (hx : x < d.paths.size)
    (he : (k, q) ∈ ((d.attach n p i).2.path x).cache) :
    (k, q) ∈ (d.path x).cache ∨ (x = p ∧ k = i ∧ q = d.paths.size) := by
  rw [path_attach_old (h.inRange p hp) _ hx] at he
  simp only at he
  split_ifs at he with hxp
  · subst hxp
    rcases (mem_insert (h.keys x hp)).1 he with ⟨rfl, rfl⟩ | ⟨-, he⟩
    · exact .inr ⟨rfl, rfl, rfl⟩
    · exact .inl he
  · exact .inl he

theorem live_attach {x : Nat} (hx : (d.attach n p i).2.Live roots x) :
    d.Live roots x ∨ x = d.paths.size := by
  induction hx with
  | root hr => exact .inl (.root hr)
  | @entry y k x _ he ih =>
    rcases ih with hy | rfl
    · rcases mem_cache_attach h hp (h.inRange y hy) he with he | ⟨-, -, hx⟩
      · exact .inl (.entry hy he)
      · exact .inr hx
    · rw [path_attach_new (h.inRange p hp)] at he
      cases he

/-- A child path made for a slot that was not cached is attached to it. -/
theorem Attached.attach (hn : (d.nodeAt p).children[i]? = some n)
    (hc : Assoc.get? (d.path p).cache i = none) : (d.attach n p i).2.Attached roots := by
  have hpr := h.inRange p hp
  have hg := grown_attach (n := n) h hp hc
  have hnew : (d.attach n p i).2.path d.paths.size = _ := path_attach_new hpr i
  refine ⟨fun x hx => ?_, fun r hr => ?_, fun x hx => ?_, fun x k q hx he => ?_⟩
  · rcases live_attach h hp hx with hx | rfl
    · exact (h.inRange x hx).trans_le hg.size
    · simp
  · have := h.inRange r (.root hr)
    rw [hg.parent r this, hg.slot r this]
    exact h.root r hr
  · rcases live_attach h hp hx with hx | rfl
    · rw [path_attach_old hpr _ (h.inRange x hx)]
      simp only
      split_ifs
      · exact Assoc.nodup_keys_insert (h.keys x hx) _ _
      · exact h.keys x hx
    · rw [hnew]
      exact List.nodup_nil
  · rcases live_attach h hp hx with hx | rfl
    · have hxr := h.inRange x hx
      rcases mem_cache_attach h hp hxr he with he | ⟨rfl, rfl, rfl⟩
      · obtain ⟨j, rfl, hf⟩ := h.entry x k q hx he
        exact ⟨j, rfl, hg.fills (h.inRange q (.entry hx he)) hxr hf⟩
      · refine ⟨i, rfl, by rw [hnew], by rw [hnew], ?_⟩
        unfold nodeAt
        rw [hnew, hg.node x hxr]
        exact hn
    · rw [hnew] at he
      cases he

/-- The path of a child is the one its parent knows, a new one if there is none. -/
theorem Attached.childIn (hn : (d.nodeAt p).children[i]? = some n) :
    (d.childIn p i n).2.Attached roots ∧ Grown d (d.childIn p i n).2 ∧
      ((i : Int), (d.childIn p i n).1) ∈ ((d.childIn p i n).2.path p).cache := by
  unfold Document.childIn
  split
  · rename_i q hq
    have he := Assoc.mem_of_get? hq
    obtain ⟨j, hj, hf⟩ := h.entry p i q hp he
    cases Int.ofNat_inj.1 hj
    have hqn : (d.path q).node = n := Option.some.inj (hf.held.symm.trans hn)
    rw [if_pos hqn]
    exact ⟨h, .refl d, he⟩
  · rename_i hc
    refine ⟨h.attach hp hn hc, grown_attach h hp hc, ?_⟩
    rw [path_attach_old (h.inRange p hp) _ (h.inRange p hp), if_pos rfl]
    exact (mem_insert (h.keys p hp)).2 (.inl ⟨rfl, rfl⟩)

end Attach

end Retouch.Document
