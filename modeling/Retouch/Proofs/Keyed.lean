import Retouch.Proofs.Editing

/-!
# Caches in order

Paths may be built for any slot, counted from either end, and nodes may be changed in any way without
a path being told. Then a path need not fill its slot any more, but what a path has in its cache is
in order: every entry names the path as its parent and its key as its slot (`Keyed`). Looking adds
paths and may put a new one in the place of an entry that does not stand on the child in its slot;
all other entries stay (`Seen`).
-/

namespace Retouch

namespace Document

/-- Every entry of a cache names the cache's owner as its parent and its key as its slot. -/
structure Keyed (d : Document) : Prop where
  keys : ∀ x, (Assoc.keys (d.path x).cache).Nodup
  inRange : ∀ x k y, (k, y) ∈ (d.path x).cache → y < d.paths.size
  parent : ∀ x k y, (k, y) ∈ (d.path x).cache → (d.path y).parent = some x
  slot : ∀ x k y, (k, y) ∈ (d.path x).cache → (d.path y).slot = some k
  older : ∀ x y : Nat, (d.path x).parent = some y → y < x

theorem path_eq_blank {d : Document} {x : Nat} (h : d.paths.size ≤ x) :
    d.path x = ⟨default, none, none, []⟩ := by
  unfold path
  simp only [Array.getD, dif_neg (Nat.not_lt.2 h)]
  rfl

namespace Keyed

variable {d : Document}

theorem lt_of_parent (h : d.Keyed) {x y : Nat} (hx : (d.path x).parent = some y) :
    y < d.paths.size := by
  have hy := h.older x y hx
  by_contra hge
  rw [path_eq_blank (by omega)] at hx
  cases hx

theorem indexed (h : d.Keyed) {p : Nat} (hp : p < d.paths.size) : d.Indexed p where
  inRange := hp
  entries e he := h.inRange p e.1 e.2 he
  own k hk := Nat.lt_irrefl p (h.older p p (h.parent p k p hk))
  slot := h.slot p

/-- A path is in one cache at most, under one key. -/
theorem entry_unique (h : d.Keyed) {x y z : PathId} {k l : Int} (hx : (k, z) ∈ (d.path x).cache)
    (hy : (l, z) ∈ (d.path y).cache) : x = y ∧ k = l :=
  ⟨Option.some.inj ((h.parent x k z hx).symm.trans (h.parent y l z hy)),
    Option.some.inj ((h.slot x k z hx).symm.trans (h.slot y l z hy))⟩

theorem start (f : Forest) : Keyed ⟨f, #[]⟩ := by
  have hpath : ∀ x, path ⟨f, #[]⟩ x = ⟨default, none, none, []⟩ :=
    fun x => path_eq_blank (Nat.zero_le x)
  constructor <;> intro x <;> simp [hpath, Assoc.keys]

theorem of_paths {d' : Document} (h : d.Keyed) (hd : d'.paths = d.paths) : d'.Keyed := by
  have hpath : ∀ x, d'.path x = d.path x := fun x => by unfold path; rw [hd]
  constructor
  all_goals simp only [hpath, hd]
  exacts [h.keys, h.inRange, h.parent, h.slot, h.older]

theorem addRoot (h : d.Keyed) (n : NodeId) : (d.addRoot n).2.Keyed := by
  have hpath : ∀ x, (d.addRoot n).2.path x =
      if x = d.paths.size then ⟨n, none, none, []⟩ else d.path x := path_push d _
  have hold : ∀ {x k y}, (k, y) ∈ ((d.addRoot n).2.path x).cache → (k, y) ∈ (d.path x).cache ∧
      (d.addRoot n).2.path y = d.path y := by
    intro x k y hk
    rw [hpath] at hk
    split_ifs at hk
    · cases hk
    · have := h.inRange x k y hk
      exact ⟨hk, by rw [hpath, if_neg (Nat.ne_of_lt this)]⟩
  refine ⟨fun x => ?_, fun x k y hk => ?_, fun x k y hk => ?_, fun x k y hk => ?_, fun x y hx => ?_⟩
  · rw [hpath]
    split_ifs
    · exact List.nodup_nil
    · exact h.keys x
  · simp only [Document.addRoot, Array.size_push]
    exact Nat.lt_succ_of_lt (h.inRange x k y (hold hk).1)
  · rw [(hold hk).2]
    exact h.parent x k y (hold hk).1
  · rw [(hold hk).2]
    exact h.slot x k y (hold hk).1
  · rw [hpath] at hx
    split_ifs at hx
    exact h.older x y hx

theorem attach (h : d.Keyed) {p : Nat} (hp : p < d.paths.size) (n : NodeId) (i : Int) :
    (d.attach n p i).2.Keyed := by
  have hnew := path_attach_new (n := n) hp i
  have hold := fun x (hx : x < d.paths.size) => path_attach_old (n := n) hp i hx
  have hout : ∀ {x}, d.paths.size < x →
      (d.attach n p i).2.path x = ⟨default, none, none, []⟩ := by
    intro x hx
    exact path_eq_blank (by rw [size_attach]; omega)
  -- an entry was there before, or is the new path
  have hentry : ∀ {x k y}, (k, y) ∈ ((d.attach n p i).2.path x).cache →
      (x < d.paths.size ∧ (k, y) ∈ (d.path x).cache) ∨ (x = p ∧ k = i ∧ y = d.paths.size) := by
    intro x k y hk
    rcases lt_trichotomy x d.paths.size with hx | rfl | hx
    · rw [hold x hx] at hk
      simp only at hk
      split_ifs at hk with hxp
      · rcases (mem_insert (h.keys x)).1 hk with ⟨rfl, rfl⟩ | ⟨-, hk⟩
        · exact .inr ⟨hxp, rfl, rfl⟩
        · exact .inl ⟨hx, hk⟩
      · exact .inl ⟨hx, hk⟩
    · rw [hnew] at hk
      cases hk
    · rw [hout hx] at hk
      cases hk
  refine ⟨fun x => ?_, fun x k y hk => ?_, fun x k y hk => ?_, fun x k y hk => ?_, fun x y hx => ?_⟩
  · rcases lt_trichotomy x d.paths.size with hx | rfl | hx
    · rw [hold x hx]
      simp only
      split_ifs
      · exact Assoc.nodup_keys_insert (h.keys x) _ _
      · exact h.keys x
    · rw [hnew]
      exact List.nodup_nil
    · rw [hout hx]
      exact List.nodup_nil
  · rw [size_attach]
    rcases hentry hk with ⟨-, hk⟩ | ⟨-, -, rfl⟩
    · exact Nat.lt_succ_of_lt (h.inRange x k y hk)
    · exact Nat.lt_succ_self _
  · rcases hentry hk with ⟨-, hk⟩ | ⟨rfl, -, rfl⟩
    · rw [hold y (h.inRange x k y hk)]
      exact h.parent x k y hk
    · rw [hnew]
  · rcases hentry hk with ⟨-, hk⟩ | ⟨-, rfl, rfl⟩
    · rw [hold y (h.inRange x k y hk)]
      exact h.slot x k y hk
    · rw [hnew]
  · rcases lt_trichotomy x d.paths.size with hlt | rfl | hlt
    · rw [hold x hlt] at hx
      exact h.older x y hx
    · rw [hnew] at hx
      cases hx
      exact hp
    · rw [hout hlt] at hx
      cases hx

section Splice

variable (h : d.Keyed) {p : Nat} (hp : p < d.paths.size) (i : Int) (field : Option String)
  (nodes : List NodeId)

include h hp

/-- A path keeps its slot unless it is known behind the one spliced. -/
theorem slot_spliceSlot (x : Nat) :
    ((d.spliceSlot p i field nodes).path x).slot = (d.path x).slot ∨
      ∃ k, i < k ∧ (k, x) ∈ (d.path p).cache ∧
        ((d.spliceSlot p i field nodes).path x).slot = some (k + ((nodes.length : Int) - 1)) := by
  have hi := h.indexed hp
  by_cases hxp : x = p
  · subst hxp
    rw [hi.path_owner]
    exact .inl rfl
  by_cases hx : ∃ k, (k, x) ∈ (d.path p).cache ∧ i < k
  · obtain ⟨k, hk, hlt⟩ := hx
    exact .inr ⟨k, hlt, hk, by rw [hi.path_behind hk hlt]⟩
  · have hle : ∀ k, (k, x) ∈ (d.path p).cache → k ≤ i := by
      intro k hk
      by_contra hlt
      exact hx ⟨k, hk, by omega⟩
    exact .inl (by rw [hi.path_other hxp hle])

/-- Splicing tells every path behind the slot its new key. -/
theorem spliceSlot : (d.spliceSlot p i field nodes).Keyed := by
  have hi := h.indexed hp
  have hkeep := hi.path_keeps i field nodes
  have hentry : ∀ {x k y}, (k, y) ∈ ((d.spliceSlot p i field nodes).path x).cache →
      ∃ l, (l, y) ∈ (d.path x).cache ∧ ((d.spliceSlot p i field nodes).path y).slot = some k := by
    intro x k y hk
    have hslot := h.slot_spliceSlot hp i field nodes y
    by_cases hxp : x = p
    · subst hxp
      rw [hi.path_owner] at hk
      rcases mem_moved.1 hk with ⟨hlt, hm⟩ | ⟨l, hlt, hm, rfl⟩
      · refine ⟨k, hm, ?_⟩
        rcases hslot with hs | ⟨l, hl, hm', -⟩
        · exact hs.trans (h.slot x k y hm)
        · have := (h.entry_unique hm hm').2
          omega
      · exact ⟨l, hm, by rw [hi.path_behind hm hlt]⟩
    · rw [(hkeep x).2.2 hxp] at hk
      refine ⟨k, hk, ?_⟩
      rcases hslot with hs | ⟨l, -, hk', -⟩
      · exact hs.trans (h.slot x k y hk)
      · exact absurd (h.entry_unique hk hk').1 hxp
  refine ⟨fun x => ?_, fun x k y hk => ?_, fun x k y hk => ?_, fun x k y hk => ?_, fun x y hx => ?_⟩
  · by_cases hxp : x = p
    · subst hxp
      rw [hi.path_owner]
      exact nodup_keys_moved (by omega) (h.keys x)
    · rw [(hkeep x).2.2 hxp]
      exact h.keys x
  · obtain ⟨l, hl, -⟩ := hentry hk
    rw [size_spliceSlot]
    exact h.inRange x l y hl
  · obtain ⟨l, hl, -⟩ := hentry hk
    rw [(hkeep y).2.1]
    exact h.parent x l y hl
  · obtain ⟨l, -, hs⟩ := hentry hk
    exact hs
  · rw [(hkeep x).2.1] at hx
    exact h.older x y hx

end Splice

theorem retarget (h : d.Keyed) {q : Nat} (hq : q < d.paths.size) (n : NodeId) :
    (d.retarget q n).Keyed := by
  have hpath := path_retarget hq n
  have hkeep : ∀ x, ((d.retarget q n).path x).parent = (d.path x).parent ∧
      ((d.retarget q n).path x).slot = (d.path x).slot := by
    intro x
    rw [hpath]
    split_ifs <;> exact ⟨rfl, rfl⟩
  have hentry : ∀ {x k y}, (k, y) ∈ ((d.retarget q n).path x).cache →
      (k, y) ∈ (d.path x).cache := by
    intro x k y hk
    rw [hpath] at hk
    split_ifs at hk
    · cases hk
    · exact hk
  refine ⟨fun x => ?_, fun x k y hk => ?_, fun x k y hk => ?_, fun x k y hk => ?_,
    fun x y hx => h.older x y ((hkeep x).1.symm.trans hx)⟩
  · rw [hpath]
    split_ifs
    · exact List.nodup_nil
    · exact h.keys x
  · rw [Document.retarget, size_modifyPath]
    exact h.inRange x k y (hentry hk)
  · exact (hkeep y).1.trans (h.parent x k y (hentry hk))
  · exact (hkeep y).2.trans (h.slot x k y (hentry hk))

/-- A path that is in no cache can be detached. -/
theorem detach (h : d.Keyed) {q : Nat} (hq : q < d.paths.size)
    (hno : ∀ x k, (k, q) ∉ (d.path x).cache) : (d.detach q).Keyed := by
  have hpath := path_detach hq
  have hcache : ∀ x, ((d.detach q).path x).cache = (d.path x).cache := by
    intro x
    rw [hpath]
    split_ifs <;> rfl
  have hentry : ∀ {x k y}, (k, y) ∈ ((d.detach q).path x).cache →
      (k, y) ∈ (d.path x).cache ∧ (d.detach q).path y = d.path y := by
    intro x k y hk
    rw [hcache] at hk
    refine ⟨hk, ?_⟩
    rw [hpath, if_neg]
    rintro rfl
    exact hno x k hk
  refine ⟨fun x => by rw [hcache]; exact h.keys x, fun x k y hk => ?_, fun x k y hk => ?_,
    fun x k y hk => ?_, fun x y hx => ?_⟩
  · rw [Document.detach, size_modifyPath]
    exact h.inRange x k y (hentry hk).1
  · rw [(hentry hk).2]
    exact h.parent x k y (hentry hk).1
  · rw [(hentry hk).2]
    exact h.slot x k y (hentry hk).1
  · rw [hpath] at hx
    split_ifs at hx
    exact h.older x y hx

theorem enter (h : d.Keyed) {p q : Nat} {k : Int} (hq : q < d.paths.size)
    (hp : (d.path q).parent = some p) (hs : (d.path q).slot = some k) : (d.enter q p k).Keyed := by
  have hpath := path_enter (h.lt_of_parent hp) q k
  have hkeep : ∀ x, ((d.enter q p k).path x).parent = (d.path x).parent ∧
      ((d.enter q p k).path x).slot = (d.path x).slot := by
    intro x
    rw [hpath]
    split_ifs <;> exact ⟨rfl, rfl⟩
  have hentry : ∀ {x l y}, (l, y) ∈ ((d.enter q p k).path x).cache →
      (x = p ∧ l = k ∧ y = q) ∨ (l, y) ∈ (d.path x).cache := by
    intro x l y hl
    rw [hpath] at hl
    split_ifs at hl with hx
    · rcases (mem_insert (h.keys x)).1 hl with ⟨rfl, rfl⟩ | ⟨-, hl⟩
      · exact .inl ⟨hx, rfl, rfl⟩
      · exact .inr hl
    · exact .inr hl
  refine ⟨fun x => ?_, fun x l y hl => ?_, fun x l y hl => ?_, fun x l y hl => ?_,
    fun x y hx => h.older x y ((hkeep x).1.symm.trans hx)⟩
  · rw [hpath]
    split_ifs
    · exact Assoc.nodup_keys_insert (h.keys x) _ _
    · exact h.keys x
  · rw [Document.enter, size_modifyPath]
    rcases hentry hl with ⟨-, -, rfl⟩ | hl
    · exact hq
    · exact h.inRange x l y hl
  · rw [(hkeep y).1]
    rcases hentry hl with ⟨rfl, -, rfl⟩ | hl
    · exact hp
    · exact h.parent x l y hl
  · rw [(hkeep y).2]
    rcases hentry hl with ⟨-, rfl, rfl⟩ | hl
    · exact hs
    · exact h.slot x l y hl

end Keyed

/-! ## Looking -/

/-- Paths have come. An entry stays in its cache if it stands on the child in its slot. -/
structure Seen (d d' : Document) : Prop where
  forest : d'.forest = d.forest
  size : d.paths.size ≤ d'.paths.size
  node : ∀ x < d.paths.size, (d'.path x).node = (d.path x).node
  parent : ∀ x < d.paths.size, (d'.path x).parent = (d.path x).parent
  slot : ∀ x < d.paths.size, (d'.path x).slot = (d.path x).slot
  entry : ∀ x < d.paths.size, ∀ y < d.paths.size, ∀ i : Nat, ((i : Int), y) ∈ (d.path x).cache →
    (d.nodeAt x).children[i]? = some (d.path y).node → ((i : Int), y) ∈ (d'.path x).cache

theorem Seen.refl (d : Document) : Seen d d :=
  ⟨rfl, le_rfl, fun _ _ => rfl, fun _ _ => rfl, fun _ _ => rfl, fun _ _ _ _ _ he _ => he⟩

theorem Seen.nodeAt {d d' : Document} (h : Seen d d') {x : Nat} (hx : x < d.paths.size) :
    d'.nodeAt x = d.nodeAt x := by
  unfold Document.nodeAt
  rw [h.node x hx, h.forest]

theorem Seen.trans {a b c : Document} (h : Seen a b) (h' : Seen b c) : Seen a c where
  forest := h'.forest.trans h.forest
  size := h.size.trans h'.size
  node x hx := (h'.node x (hx.trans_le h.size)).trans (h.node x hx)
  parent x hx := (h'.parent x (hx.trans_le h.size)).trans (h.parent x hx)
  slot x hx := (h'.slot x (hx.trans_le h.size)).trans (h.slot x hx)
  entry x hx y hy i he hc := by
    refine h'.entry x (hx.trans_le h.size) y (hy.trans_le h.size) i (h.entry x hx y hy i he hc) ?_
    rw [h.nodeAt hx, h.node y hy]
    exact hc

namespace Keyed

variable {d : Document}

/-- A new path takes over its slot from one that does not stand on the child there. -/
theorem seen_attach (h : d.Keyed) {p : Nat} (hp : p < d.paths.size) {n : NodeId} {i : Nat}
    (hn : (d.nodeAt p).children[i]? = some n)
    (hc : ∀ y, ((i : Int), y) ∈ (d.path p).cache → (d.path y).node ≠ n) :
    Seen d (d.attach n p i).2 := by
  have hold := fun x (hx : x < d.paths.size) => path_attach_old (n := n) hp (i : Int) hx
  refine ⟨rfl, by simp, fun x hx => by rw [hold x hx], fun x hx => by rw [hold x hx],
    fun x hx => by rw [hold x hx], fun x hx y _ j he hy => ?_⟩
  rw [hold x hx]
  simp only
  split_ifs with hxp
  · subst hxp
    refine (mem_insert (h.keys x)).2 (.inr ⟨?_, he⟩)
    intro hji
    rw [hji] at he
    rw [Int.ofNat_inj.1 hji, hn] at hy
    exact hc y he (Option.some.inj hy).symm
  · exact he

/-- The path given for a child is known under its slot and stands on it. -/
theorem childIn (h : d.Keyed) {p : Nat} (hp : p < d.paths.size) (n : NodeId) (i : Nat) :
    ((i : Int), (d.childIn p i n).1) ∈ ((d.childIn p i n).2.path p).cache ∧
      ((d.childIn p i n).2.path (d.childIn p i n).1).node = n := by
  have hattach : ((i : Int), (d.attach n p i).1) ∈ ((d.attach n p i).2.path p).cache ∧
      ((d.attach n p i).2.path (d.attach n p i).1).node = n := by
    have hnew : (d.attach n p i).1 = d.paths.size := rfl
    rw [hnew, path_attach_old hp _ hp, if_pos rfl, path_attach_new hp]
    exact ⟨(mem_insert (h.keys p)).2 (.inl ⟨rfl, rfl⟩), rfl⟩
  unfold Document.childIn
  split
  · rename_i q hq
    split_ifs with hqn
    · exact ⟨Assoc.mem_of_get? hq, hqn⟩
    · exact hattach
  · exact hattach

end Keyed

end Document

namespace Edit

open Document

/-- What looking comes to: the caches are in order, nothing was lost, the paths found are there, and
those that have come count their slots from the front. -/
structure Viewed {α : Type} (paths : α → List PathId) (d : Document)
    (outcome : Except Fault α × Document) : Prop where
  keyed : outcome.2.Keyed
  seen : Seen d outcome.2
  found : ∀ a, outcome.1 = .ok a → ∀ q ∈ paths a, q < outcome.2.paths.size
  fresh : ∀ x, d.paths.size ≤ x → ∀ s, (outcome.2.path x).slot = some s → 0 ≤ s

theorem Viewed.refl {α : Type} {paths : α → List PathId} {d : Document} {x : Except Fault α}
    (h : d.Keyed) (hx : ∀ a, x = .ok a → ∀ q ∈ paths a, q < d.paths.size) :
    Viewed paths d (x, d) := by
  refine ⟨h, .refl d, hx, fun y hy s hs => ?_⟩
  rw [path_eq_blank hy] at hs
  cases hs

section Viewed

variable {α β : Type} {paths : α → List PathId} {paths' : β → List PathId} {d : Document}
  {outcome : Except Fault α × Document} {outcome' : Except Fault β × Document}

theorem Viewed.answer (h : Viewed paths d outcome) {x : Except Fault β}
    (hx : ∀ b, x = .ok b → ∀ q ∈ paths' b, q < outcome.2.paths.size) :
    Viewed paths' d (x, outcome.2) :=
  ⟨h.keyed, h.seen, hx, h.fresh⟩

theorem Viewed.trans (h : Viewed paths d outcome) (h' : Viewed paths' outcome.2 outcome') :
    Viewed paths' d outcome' := by
  refine ⟨h'.keyed, h.seen.trans h'.seen, h'.found, fun y hy s hs => ?_⟩
  by_cases hlt : y < outcome.2.paths.size
  · exact h.fresh y hy s ((h'.seen.slot y hlt).symm.trans hs)
  · exact h'.fresh y (Nat.le_of_not_lt hlt) s hs

end Viewed

theorem viewed_attach {d : Document} (h : d.Keyed) {p : Nat} (hp : p < d.paths.size) {n : NodeId}
    {i : Nat} (hn : (d.nodeAt p).children[i]? = some n)
    (hc : ∀ y, ((i : Int), y) ∈ (d.path p).cache → (d.path y).node ≠ n) :
    Viewed (fun q => [q]) d (.ok (d.attach n p i).1, (d.attach n p i).2) := by
  refine ⟨h.attach hp n i, h.seen_attach hp hn hc, by simp [Document.attach], fun x hx s hs => ?_⟩
  rcases Nat.eq_or_lt_of_le hx with rfl | hlt
  · rw [path_attach_new hp] at hs
    cases hs
    omega
  · rw [path_eq_blank (by rw [size_attach]; omega)] at hs
    cases hs

theorem viewed_child {d : Document} (h : d.Keyed) {p : Nat} (hp : p < d.paths.size) (index : Int) :
    Viewed (fun q => [q]) d (perform (child p index) d) := by
  rw [perform_child]
  split
  · exact .refl h (by simp)
  rename_i n hn
  obtain ⟨i, hi, hn⟩ := Slot.get?_eq_some_iff.1 hn
  rw [hi]
  have hnew : ∀ y, ((i : Int), y) ∈ (d.path p).cache →
      Assoc.get? (d.path p).cache (i : Int) = some y :=
    fun y hy => (Assoc.get?_eq_some_iff (h.keys p)).2 hy
  unfold Document.childIn
  split
  · rename_i q hq
    split_ifs with hqn
    · refine .refl h ?_
      simpa using h.inRange p _ q (Assoc.mem_of_get? hq)
    · refine viewed_attach h hp hn fun y hy => ?_
      cases (hnew y hy).symm.trans hq
      exact hqn
  · rename_i hq
    refine viewed_attach h hp hn fun y hy => ?_
    rw [hnew y hy] at hq
    cases hq

theorem viewed_mapM {ι : Type} (g : ι → Int) {p : Nat} : ∀ (is : List ι) {d : Document},
    d.Keyed → p < d.paths.size → Viewed id d (perform (is.mapM fun i => child p (g i)) d)
  | [], d, h, _ => .refl h (by simp)
  | i :: is, d, h, hp => by
    have hone := viewed_child h hp (g i)
    rw [List.mapM_cons, perform_bind]
    rcases hc : perform (child p (g i)) d with ⟨e | q, d1⟩ <;> rw [hc] at hone
    · exact hone.answer (by simp)
    have hrest := viewed_mapM g is hone.keyed (hp.trans_le hone.seen.size)
    simp only
    rw [perform_bind]
    rcases hm : perform (is.mapM fun i => child p (g i)) d1 with ⟨e | qs, d2⟩ <;> rw [hm] at hrest
    · exact (hone.trans hrest).answer (by simp)
    refine (hone.trans hrest).answer ?_
    rintro _ ⟨⟩ r hr
    rcases List.mem_cons.1 hr with rfl | hr
    · exact Nat.lt_of_lt_of_le (hone.found r rfl r List.mem_cons_self) hrest.seen.size
    · exact hrest.found qs rfl r hr

theorem viewed_childPaths {d : Document} (h : d.Keyed) {p : Nat} (hp : p < d.paths.size) :
    Viewed id d (perform (childPaths p) d) := by
  unfold childPaths
  rw [perform_bind_of_ok (perform_get d)]
  exact viewed_mapM (fun i : Nat => (i : Int)) _ h hp

theorem viewed_walkFrom : ∀ (fuel : Nat) (ps : List PathId) {d : Document}, d.Keyed →
    (∀ p ∈ ps, p < d.paths.size) → Viewed id d (perform (walkFrom fuel ps) d)
  | 0, [], d, h, _ | _ + 1, [], d, h, _ => .refl h (by simp)
  | 0, _ :: _, d, h, _ => .refl h (by simp)
  | fuel + 1, p :: ps, d, h, hps => by
    obtain ⟨hp, hps⟩ := List.forall_mem_cons.1 hps
    have hone := viewed_childPaths h hp
    rw [walkFrom, perform_bind]
    rcases hc : perform (childPaths p) d with ⟨e | qs, d1⟩ <;> rw [hc] at hone
    · exact hone.answer (by simp)
    have hrest := viewed_walkFrom fuel (qs ++ ps) hone.keyed (by
      intro q hq
      rcases List.mem_append.1 hq with hq | hq
      · exact hone.found qs rfl q hq
      · exact Nat.lt_of_lt_of_le (hps q hq) hone.seen.size)
    simp only
    rw [perform_bind]
    rcases hm : perform (walkFrom fuel (qs ++ ps)) d1 with ⟨e | rs, d2⟩ <;> rw [hm] at hrest
    · exact (hone.trans hrest).answer (by simp)
    refine (hone.trans hrest).answer ?_
    rintro _ ⟨⟩ r hr
    rcases List.mem_cons.1 hr with rfl | hr
    · exact Nat.lt_of_lt_of_le (Nat.lt_of_lt_of_le hp hone.seen.size) hrest.seen.size
    · exact hrest.found rs rfl r hr

theorem viewed_walk {d : Document} (h : d.Keyed) {p : Nat} (hp : p < d.paths.size) :
    Viewed id d (perform (walk p) d) := by
  unfold walk
  rw [perform_bind_of_ok (perform_get d)]
  exact viewed_walkFrom _ [p] h (by simpa using hp)

/-! ## What is found -/

/-- The path of a child that is there is known under the child's place and stands on it. -/
theorem child_found {d : Document} (h : d.Keyed) {p : Nat} (hp : p < d.paths.size) {index : Int}
    {n : NodeId} (hn : Slot.get? (d.nodeAt p).children index = some n) :
    ∃ q d', perform (child p index) d = (.ok q, d') ∧
      (Slot.fromFront (d.nodeAt p).children.length index, q) ∈ (d'.path p).cache ∧
      (d'.path q).node = n := by
  obtain ⟨i, hi, -⟩ := Slot.get?_eq_some_iff.1 hn
  obtain ⟨hentry, hnode⟩ := h.childIn hp n i
  refine ⟨(d.childIn p i n).1, (d.childIn p i n).2, ?_, ?_, hnode⟩
  · simp only [perform_child, hn, hi]
  · rwa [hi]

theorem mapM_child_found {ι : Type} (g : ι → Int) {p : Nat} : ∀ (is : List ι) {d : Document},
    d.Keyed → p < d.paths.size → (∀ i ∈ is, (Slot.get? (d.nodeAt p).children (g i)).isSome) →
    ∃ qs d', perform (is.mapM fun i => child p (g i)) d = (.ok qs, d') ∧
      List.Forall₂ (fun i q =>
        (Slot.fromFront (d.nodeAt p).children.length (g i), q) ∈ (d'.path p).cache ∧
          Slot.get? (d.nodeAt p).children (g i) = some (d'.path q).node) is qs
  | [], d, _, _, _ => ⟨[], d, rfl, .nil⟩
  | i :: is, d, h, hp, his => by
    obtain ⟨hi, his⟩ := List.forall_mem_cons.1 his
    obtain ⟨n, hn⟩ := Option.isSome_iff_exists.1 hi
    have hone := viewed_child h hp (g i)
    obtain ⟨q, d1, hq, hentry, hnode⟩ := child_found h hp hn
    rw [hq] at hone
    have hp1 : p < d1.paths.size := hp.trans_le hone.seen.size
    have hq1 : q < d1.paths.size := hone.found q rfl q List.mem_cons_self
    have hsame : d1.nodeAt p = d.nodeAt p := hone.seen.nodeAt hp
    have hrest := viewed_mapM g is hone.keyed hp1
    obtain ⟨qs, d2, hqs, hfound⟩ := mapM_child_found g is hone.keyed hp1 (by rwa [hsame])
    rw [hqs] at hrest
    rw [hsame] at hfound
    refine ⟨q :: qs, d2, ?_, .cons ⟨?_, ?_⟩ hfound⟩
    · rw [List.mapM_cons, perform_bind_of_ok hq, perform_bind_of_ok hqs]
      rfl
    · -- the path found first stands on its child, so it is not superseded later on
      obtain ⟨j, hj, hc⟩ := Slot.get?_eq_some_iff.1 hn
      rw [hj] at hentry ⊢
      exact hrest.seen.entry p hp1 q hq1 j hentry (by rw [hsame, hnode]; exact hc)
    · rw [hrest.seen.node q hq1, hnode, hn]

/-- The child paths of a path, one for each child, in order. -/
theorem childPaths_found {d : Document} (h : d.Keyed) {p : Nat} (hp : p < d.paths.size) :
    ∃ qs d', perform (childPaths p) d = (.ok qs, d') ∧
      qs.length = (d.nodeAt p).children.length ∧
      ∀ (i : Nat) q, qs[i]? = some q → ((i : Int), q) ∈ (d'.path p).cache ∧
        (d.nodeAt p).children[i]? = some (d'.path q).node := by
  obtain ⟨qs, d', hqs, hfound⟩ := mapM_child_found (fun i : Nat => (i : Int))
    (List.range (d.nodeAt p).children.length) h hp (by simp)
  have hlen := hfound.length_eq
  rw [List.length_range] at hlen
  refine ⟨qs, d', ?_, hlen.symm, fun i q hq => ?_⟩
  · unfold childPaths
    rw [perform_bind_of_ok (perform_get d)]
    exact hqs
  · obtain ⟨hi, rfl⟩ := List.getElem?_eq_some_iff.1 hq
    have hone := hfound.get (i := i) (by simpa [hlen] using hi) hi
    simpa using hone

end Edit

end Retouch
