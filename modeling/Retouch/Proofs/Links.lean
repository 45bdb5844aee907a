import Retouch.Proofs.Replacing

/-!
# Links between paths

A child path that comes of looking names its slot from the front. So where no path was built for a
slot counted from the end, none ever names one: not after acts on any path, also on one that its
parent has forgotten, that may put any nodes anywhere (`Linked.step`). As caches stay in order
(`Keyed`), an act changes the place of a path only as far as its parent knows it.
-/

namespace Retouch

namespace Document

/-- Every entry of a cache names the cache's owner as its parent and its key as its slot. -/
structure Linked (d : Document) : Prop where
  keys : ∀ x, (Assoc.keys (d.path x).cache).Nodup
  inRange : ∀ x k y, (k, y) ∈ (d.path x).cache → y < d.paths.size
  parent : ∀ x k y, (k, y) ∈ (d.path x).cache → (d.path y).parent = some x
  slot : ∀ x k y, (k, y) ∈ (d.path x).cache → (d.path y).slot = some k
  older : ∀ x y : Nat, (d.path x).parent = some y → y < x
  front : ∀ x s, (d.path x).slot = some s → 0 ≤ s

namespace Linked

variable {d d' : Document}

theorem keyed (h : d.Linked) : d.Keyed :=
  ⟨h.keys, h.inRange, h.parent, h.slot, h.older⟩

theorem of_keyed (h : d.Keyed) (hfront : ∀ x s, (d.path x).slot = some s → 0 ≤ s) : d.Linked :=
  ⟨h.keys, h.inRange, h.parent, h.slot, h.older, hfront⟩

/-- No path has come to another slot. -/
theorem of_slots (h : d.Linked) (hk : d'.Keyed)
    (hs : ∀ x s, (d'.path x).slot = some s → (d.path x).slot = some s) : d'.Linked :=
  .of_keyed hk fun x s hx => h.front x s (hs x s hx)

theorem lt_of_parent (h : d.Linked) {x y : Nat} (hx : (d.path x).parent = some y) :
    y < d.paths.size :=
  h.keyed.lt_of_parent hx

theorem indexed (h : d.Linked) {p : Nat} (hp : p < d.paths.size) : d.Indexed p :=
  h.keyed.indexed hp

theorem start (f : Forest) : Linked ⟨f, #[]⟩ := by
  refine .of_keyed (.start f) fun x s hs => ?_
  rw [path_eq_blank (Nat.zero_le x)] at hs
  cases hs

theorem of_paths (h : d.Linked) (hd : d'.paths = d.paths) : d'.Linked := by
  refine h.of_slots (h.keyed.of_paths hd) fun x s hs => ?_
  rwa [path, hd] at hs

theorem addRoot (h : d.Linked) (n : NodeId) : (d.addRoot n).2.Linked := by
  refine h.of_slots (h.keyed.addRoot n) fun x s hs => ?_
  rw [Document.addRoot, path_push] at hs
  split_ifs at hs
  exact hs

/-- Splicing tells every path behind the slot its new key. -/
theorem spliceSlot (h : d.Linked) {p : Nat} (hp : p < d.paths.size) (i : Nat)
    (field : Option String) (nodes : List NodeId) : (d.spliceSlot p i field nodes).Linked := by
  refine .of_keyed (h.keyed.spliceSlot hp i field nodes) fun x s hs => ?_
  rcases h.keyed.slot_spliceSlot hp i field nodes x with hx | ⟨k, hlt, -, hx⟩
  · exact h.front x s (hx.symm.trans hs)
  · cases hx.symm.trans hs
    omega

theorem retarget (h : d.Linked) {q : Nat} (hq : q < d.paths.size) (n : NodeId) :
    (d.retarget q n).Linked := by
  refine h.of_slots (h.keyed.retarget hq n) fun x s hs => ?_
  rw [path_retarget hq] at hs
  split_ifs at hs <;> exact hs

/-- The path given for a child is known under its slot and stands on it. -/
theorem childIn (h : d.Linked) {p : Nat} (hp : p < d.paths.size) (n : NodeId) (i : Nat) :
    ((i : Int), (d.childIn p i n).1) ∈ ((d.childIn p i n).2.path p).cache ∧
      ((d.childIn p i n).2.path (d.childIn p i n).1).node = n :=
  h.keyed.childIn hp n i

end Linked

end Document

/-! ## Looking -/

namespace Edit

open Document

/-- What looking comes to: the document is linked, nothing was lost, and the paths found are
there. -/
structure Surveyed {α : Type} (paths : α → List PathId) (d : Document)
    (outcome : Except Fault α × Document) : Prop where
  linked : outcome.2.Linked
  seen : Seen d outcome.2
  found : ∀ a, outcome.1 = .ok a → ∀ q ∈ paths a, q < outcome.2.paths.size

variable {d : Document}

theorem Viewed.surveyed {α : Type} {paths : α → List PathId} {outcome : Except Fault α × Document}
    (hv : Viewed paths d outcome) (h : d.Linked) : Surveyed paths d outcome := by
  refine ⟨.of_keyed hv.keyed fun x s hs => ?_, hv.seen, hv.found⟩
  by_cases hx : x < d.paths.size
  · exact h.front x s ((hv.seen.slot x hx).symm.trans hs)
  · exact hv.fresh x (Nat.le_of_not_lt hx) s hs

theorem surveyed_child (h : d.Linked) {p : Nat} (hp : p < d.paths.size) (index : Int) :
    Surveyed (fun q => [q]) d (perform (child p index) d) :=
  (viewed_child h.keyed hp index).surveyed h

end Edit

/-! ## Replacing -/

namespace Document.Linked

variable {d : Document} {x y i : Nat} {field : Option String} {nodes : List NodeId}

section Spliced

variable (h : d.Linked) (hy : (d.path x).parent = some y) (hi : (d.path x).slot = some (i : Int))
  (hx : x < d.paths.size)

include h hy hi hx

theorem taken : ((d.spliceSlot y i field nodes).detach x).Linked := by
  refine (h.spliceSlot (h.lt_of_parent hy) i field nodes).of_slots (h.keyed.taken hx hy hi)
    fun z s hs => ?_
  rw [path_detach (by simpa using hx)] at hs
  split_ifs at hs
  exact hs

theorem seated (n : NodeId) :
    (((d.spliceSlot y i field nodes).retarget x n).enter x y i).Linked := by
  refine (h.spliceSlot (h.lt_of_parent hy) i field nodes).of_slots (h.keyed.seated hx hy hi n)
    fun z s hs => ?_
  rw [path_enter (by simpa [Document.retarget] using h.lt_of_parent hy),
    path_retarget (by simpa using hx)] at hs
  split_ifs at hs <;> exact hs

end Spliced

/-- A replacement through any path changes nothing, moves a root path, or splices the slot of the
path and takes it out or seats it there and looks at the children behind it. -/
theorem replace_cases (h : d.Linked) (hx : x < d.paths.size) (nodes : List NodeId) :
    (perform (Edit.replace x nodes) d).2 = d ∨
    (∃ n, nodes = [n] ∧ (d.path x).parent = none ∧
      (perform (Edit.replace x nodes) d).2 = d.retarget x n) ∨
    ∃ (y i : Nat) (field : Option String), (d.path x).parent = some y ∧
      (d.path x).slot = some (i : Int) ∧ (d.nodeAt y).children[i]? = some (d.path x).node ∧
      ((nodes = [] ∧ (perform (Edit.replace x nodes) d).2 =
          (d.spliceSlot y i field nodes).detach x) ∨
        ∃ n rest, nodes = n :: rest ∧ (perform (Edit.replace x nodes) d).2.Linked ∧
          Seen (((d.spliceSlot y i field nodes).retarget x n).enter x y i)
            (perform (Edit.replace x nodes) d).2) := by
  rcases Edit.replace_cases x nodes d with ⟨e, hd⟩ | ⟨n, hn, hp, hd⟩ |
    ⟨y, slot, field, hy, hslot, hheld, -, hd⟩
  · exact .inl (by rw [hd])
  · exact .inr (.inl ⟨n, hn, hp, by rw [hd]⟩)
  obtain ⟨i, rfl⟩ := Int.eq_ofNat_of_zero_le (h.front x slot hslot)
  rw [Slot.get?_natCast] at hheld
  refine .inr (.inr ⟨y, i, field, hy, hslot, hheld, ?_⟩)
  rcases hd with ⟨rfl, hd⟩ | ⟨n, rest, hn, hd⟩
  · exact .inl ⟨rfl, by rw [hd]⟩
  · refine .inr ⟨n, rest, hn, ?_⟩
    have hseated : (((d.spliceSlot y i field nodes).retarget x n).enter x y i).Linked :=
      h.seated hy hslot hx n
    have hlt : y < (((d.spliceSlot y i field nodes).retarget x n).enter x y i).paths.size := by
      simpa [Document.enter, Document.retarget] using h.lt_of_parent hy
    have hview := Edit.viewed_mapM (fun j : Nat => (i : Int) + 1 + j) (List.range rest.length)
      hseated.keyed hlt
    rw [hd]
    exact ⟨(hview.surveyed hseated).linked, hview.seen⟩

theorem replace (h : d.Linked) (hx : x < d.paths.size) (nodes : List NodeId) :
    (perform (Edit.replace x nodes) d).2.Linked := by
  rcases h.replace_cases hx nodes with hd | ⟨n, -, -, hd⟩ |
    ⟨y, i, field, hy, hi, -, ⟨-, hd⟩ | ⟨n, rest, -, hl, -⟩⟩
  · rwa [hd]
  · rw [hd]
    exact h.retarget hx n
  · rw [hd]
    exact h.taken hy hi hx
  · exact hl

end Document.Linked

/-! ## Runs -/

namespace Act

/-- The documents that come of one by acts that may be done. -/
inductive Run (may : Document → Act → Prop) (d : Document) : Document → Prop
  | start : Run may d d
  | step {d' : Document} {a : Act} : Run may d d' → may d' a → Run may d (a.after d')

theorem Run.mono {may may' : Document → Act → Prop} {d d' : Document} (h : Run may d d')
    (hm : ∀ d a, may d a → may' d a) : Run may' d d' := by
  induction h with
  | start => exact .start
  | step _ ha ih => exact .step ih (hm _ _ ha)

/-- An act that edits no path makes a node or looks. -/
theorem after_of_not_edited {d : Document} (h : d.Linked) {a : Act} (ha : a.edited? = none)
    (hon : a.OnPath d) :
    (∃ node, a.after d = { d with forest := (d.forest.add node).2 }) ∨
      (a.after d).Linked ∧ Document.Seen d (a.after d) := by
  cases a with
  | make node => exact .inl ⟨node, by simp only [after, Edit.perform_addNode]⟩
  | child p index =>
    have hv := Edit.viewed_child h.keyed (hon p rfl) index
    exact .inr ⟨(hv.surveyed h).linked, hv.seen⟩
  | childPaths p =>
    have hv := Edit.viewed_childPaths h.keyed (hon p rfl)
    exact .inr ⟨(hv.surveyed h).linked, hv.seen⟩
  | walk p =>
    have hv := Edit.viewed_walk h.keyed (hon p rfl)
    exact .inr ⟨(hv.surveyed h).linked, hv.seen⟩
  | replace | prune => cases ha

end Act

theorem Document.Linked.step {d : Document} (h : d.Linked) {a : Act} (ha : a.OnPath d) :
    (a.after d).Linked := by
  rcases he : a.edited? with _ | x
  · rcases Act.after_of_not_edited h he ha with ⟨node, hd⟩ | ⟨hl, -⟩
    · rw [hd]
      exact h.of_paths rfl
    · exact hl
  · obtain ⟨nodes, -, hd⟩ := Act.after_of_edited he d
    rw [hd]
    exact h.replace (ha x (Act.on_of_edited he)) nodes

theorem Act.Run.linked {may : Document → Act → Prop} {d d' : Document} (h : Run may d d')
    (hmay : ∀ d a, may d a → a.OnPath d) (hd : d.Linked) : d'.Linked := by
  induction h with
  | start => exact hd
  | step _ ha ih => exact ih.step (hmay _ _ ha)

end Retouch
