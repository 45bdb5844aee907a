import Retouch.Proofs.Replacing

/-!
# Calls on any path

Paths go stale: nodes are changed without their knowledge, another path takes over their slot, or
they are taken out. What a call on a path comes to is decided by the document as it stands. Asking
for a child gives a path that fills the child's slot now, and gives the same path again
(`child_heals`). A call that fails has changed nothing, as a replacement that has passed its checks
finds every place that it asks for; and it fails exactly where the slot that the path names does not
hold the path's node or has no field (`failed_call_changes_nothing`).
-/

namespace Retouch

namespace Edit

open Document

variable {d : Document}

/-- A child whose path is known and stands on it is given that path, and nothing changes. -/
theorem child_known (h : d.Keyed) {p q : PathId} {index : Int}
    (hq : (Slot.fromFront (d.nodeAt p).children.length index, q) ∈ (d.path p).cache)
    (hn : Slot.get? (d.nodeAt p).children index = some (d.path q).node) :
    perform (child p index) d = (.ok q, d) := by
  have hfound := (Assoc.get?_eq_some_iff (h.keys p)).2 hq
  simp only [perform_child, hn, Document.childIn, hfound, if_pos]

theorem child_succeeds_iff (h : d.Keyed) {p : Nat} (hp : p < d.paths.size) {index : Int} :
    (∃ q d', perform (child p index) d = (.ok q, d')) ↔
      (Slot.get? (d.nodeAt p).children index).isSome := by
  rw [Option.isSome_iff_exists]
  constructor
  · rintro ⟨q, d', hq⟩
    rw [perform_child] at hq
    split at hq
    · cases hq
    · rename_i n hn
      exact ⟨n, hn⟩
  · rintro ⟨n, hn⟩
    obtain ⟨q, d', hq, -⟩ := child_found h hp hn
    exact ⟨q, d', hq⟩

/-- The path that is given for a child is known under the child's slot and stands on the child. -/
theorem child_given (h : d.Keyed) {p : Nat} (hp : p < d.paths.size) {index : Int} {q : PathId}
    {d' : Document} (hq : perform (child p index) d = (.ok q, d')) :
    d'.Keyed ∧ d'.nodeAt p = d.nodeAt p ∧
      (Slot.fromFront (d.nodeAt p).children.length index, q) ∈ (d'.path p).cache ∧
      Slot.get? (d.nodeAt p).children index = some (d'.path q).node := by
  have hview := viewed_child h hp index
  obtain ⟨n, hn⟩ := Option.isSome_iff_exists.1 ((child_succeeds_iff h hp).1 ⟨q, d', hq⟩)
  obtain ⟨q₁, d₁, hq₁, hentry, hnode⟩ := child_found h hp hn
  cases hq.symm.trans hq₁
  rw [hq] at hview
  exact ⟨hview.keyed, hview.seen.nodeAt hp, hentry, by rw [hnode, hn]⟩

/-! ## Calls that fail -/

/-- A call that fails leaves the document as it was. -/
def Atomic {α : Type} (call : Edit α) (d : Document) : Prop :=
  ∀ fault d', perform call d = (.error fault, d') → d' = d

theorem atomic_of_ok {α : Type} {call : Edit α} {a : α} {d₁ : Document}
    (h : perform call d = (.ok a, d₁)) : Atomic call d := by
  intro fault d' hd'
  rw [h] at hd'
  cases hd'

theorem atomic_of_error {α : Type} {call : Edit α} {fault : Fault}
    (h : perform call d = (.error fault, d)) : Atomic call d := by
  intro fault' d' hd'
  rw [h] at hd'
  exact (Prod.mk.inj hd').2.symm

theorem atomic_child (p : PathId) (index : Int) (d : Document) : Atomic (child p index) d := by
  have hcall := perform_child p index d
  split at hcall
  · exact atomic_of_error hcall
  · exact atomic_of_ok hcall

/-- A path is built after all checks. -/
theorem atomic_addPath (n : NodeId) (parent : Option PathId) (slot : Option Int) (d : Document) :
    Atomic (addPath n parent slot) d := by
  unfold addPath
  split
  · exact atomic_of_ok rfl
  · rename_i p i
    intro fault d' hd'
    rw [perform_bind_of_ok (perform_get d)] at hd'
    split at hd'
    · exact (Prod.mk.inj hd').2.symm
    · split_ifs at hd'
      · cases hd'
      · exact (Prod.mk.inj hd').2.symm
  · exact atomic_of_error rfl

/-- Pruning changes nothing that replacing by nothing does not. -/
theorem atomic_prune {p : PathId} (h : Atomic (replace p []) d) : Atomic (prune p) d := by
  intro fault d' hd'
  unfold prune at hd'
  rw [perform_bind_of_ok (perform_get d), perform_bind] at hd'
  rcases hr : perform (replace p []) d with ⟨e | qs, d₁⟩ <;> rw [hr] at hd'
  · cases hd'
    exact h fault d' hr
  · cases hd'

end Edit

namespace Document.Keyed

variable {d : Document} {x y : Nat} {i : Int}

theorem atomic_replace (h : d.Keyed) (hx : x < d.paths.size) (nodes : List NodeId) :
    Edit.Atomic (Edit.replace x nodes) d := by
  rcases Edit.replace_cases x nodes d with ⟨e, hd⟩ | ⟨n, -, -, hd⟩ |
    ⟨y, i, field, hy, hi, hheld, hfield, -⟩
  · exact Edit.atomic_of_error hd
  · exact Edit.atomic_of_ok hd
  · obtain ⟨qs, d', hd, -⟩ := h.replace_ok hx hy hi hheld hfield nodes
    exact Edit.atomic_of_ok hd

/-- A replacement through a path in a slot fails where the slot does not hold the path's node or has
no field, from whichever end the slot is counted. -/
theorem replace_fails_iff (h : d.Keyed) (hx : x < d.paths.size) (hy : (d.path x).parent = some y)
    (hi : (d.path x).slot = some i) (nodes : List NodeId) :
    (∃ fault, (perform (Edit.replace x nodes) d).1 = .error fault) ↔
      Slot.get? (d.nodeAt y).children i ≠ some (d.path x).node ∨
        Slot.get? (d.nodeAt y).fields i = none := by
  constructor
  · rintro ⟨fault, hf⟩
    by_contra hno
    obtain ⟨hheld, hfield⟩ := not_or.1 hno
    obtain ⟨field, hfield⟩ := Option.ne_none_iff_exists'.1 hfield
    obtain ⟨qs, d', hd, -⟩ := h.replace_ok hx hy hi (not_not.1 hheld) hfield nodes
    rw [hd] at hf
    cases hf
  · intro hbad
    rcases Edit.replace_cases x nodes d with ⟨e, hd⟩ | ⟨n, -, hroot, -⟩ |
      ⟨y', i', field, hy', hi', hheld, hfield, -⟩
    · exact ⟨e, by rw [hd]⟩
    · rw [hy] at hroot
      cases hroot
    · cases hy.symm.trans hy'
      cases hi.symm.trans hi'
      rcases hbad with hbad | hbad
      · exact absurd hheld hbad
      · rw [hbad] at hfield
        cases hfield

end Document.Keyed

/-! ## Documents as they come about -/

/-- Asking a path for a child succeeds where there is one, counted from either end. The path given
has the asked one as its parent and fills the child's slot, counted from the front, and it is given
again as long as nothing has changed. -/
theorem child_heals {d : Document} (hd : d.Made) {p : Nat} (hp : p < d.paths.size) (index : Int) :
    ((∃ q d', perform (Edit.child p index) d = (.ok q, d')) ↔
      -((d.nodeAt p).children.length : Int) ≤ index ∧ index < (d.nodeAt p).children.length) ∧
    ∀ q d', perform (Edit.child p index) d = (.ok q, d') →
      d'.nodeAt p = d.nodeAt p ∧ (d'.path q).parent = some p ∧
      (∃ i : Nat, (i : Int) =
          (if index < 0 then index + (d.nodeAt p).children.length else index) ∧
        (d'.path q).slot = some (i : Int) ∧
        (d'.nodeAt p).children[i]? = some (d'.path q).node) ∧
      perform (Edit.child p index) d' = (.ok q, d') := by
  refine ⟨?_, fun q d' hq => ?_⟩
  · rw [Edit.child_succeeds_iff hd.keyed hp, Slot.get?_isSome_iff]
  · obtain ⟨hkeyed, hsame, hentry, hheld⟩ := Edit.child_given hd.keyed hp hq
    obtain ⟨i, hi, hchild⟩ := Slot.get?_eq_some_iff.1 hheld
    refine ⟨hsame, hkeyed.parent p _ q hentry, ⟨i, hi.symm, ?_, ?_⟩, ?_⟩
    · rw [← hi]
      exact hkeyed.slot p _ q hentry
    · rw [hsame, hchild]
    · exact Edit.child_known hkeyed (by rwa [hsame]) (by rwa [hsame])

/-- A root path over a row of three leaves, which was asked for its last child. -/
def rowAsked : Document :=
  (Act.child 0 (-1)).after (perform (Edit.addPath 3 none none) ⟨⟨#[.leaf "a" "1" true,
    .leaf "b" "2" true, .leaf "c" "3" true, .branch "row" [0, 1, 2] [none, none, none]]⟩, #[]⟩).2

/-- The row is turned round, and no path is told. -/
def rowTurned : Document :=
  { rowAsked with forest := rowAsked.forest.modify 3 fun x => { x with children := [2, 1, 0] } }

theorem made_rowTurned : rowTurned.Made :=
  .nodes _ (.act (.child 0 (-1)) (.path 3 none none (.start _) (by simp))
    (by rintro _ ⟨⟩; decide))

theorem child_heals_turned : rowTurned.Made ∧ (rowTurned.path 0).cache = [(2, 1)] ∧
    (rowTurned.path 1).node = 2 ∧
    ∃ d', perform (Edit.child 0 (-1)) rowTurned = (.ok 2, d') ∧ (d'.path 2).parent = some 0 ∧
      (d'.path 2).slot = some 2 ∧ (d'.path 2).node = 0 ∧
      perform (Edit.child 0 (-1)) d' = (.ok 2, d') := by
  have hask : perform (Edit.child 0 (-1)) rowTurned =
      (.ok 2, (perform (Edit.child 0 (-1)) rowTurned).2) := perform_eq_of_toOption (by decide)
  obtain ⟨-, hheals⟩ := child_heals made_rowTurned (p := 0) (by decide) (-1)
  obtain ⟨-, hparent, -, hagain⟩ := hheals 2 _ hask
  exact ⟨made_rowTurned, by decide, by decide, _, hask, hparent, by decide, by decide, hagain⟩

/-- A call that fails changes nothing, whatever became of the paths. A replacement through a path in
a slot that is counted from the front fails where the slot is behind the children of the parent's
node, holds another node than the path's, or has no field. -/
theorem failed_call_changes_nothing {d : Document} (hd : d.Made) {p : Nat}
    (hp : p < d.paths.size) :
    (∀ nodes, Edit.Atomic (Edit.replace p nodes) d) ∧ Edit.Atomic (Edit.prune p) d ∧
    (∀ index, Edit.Atomic (Edit.child p index) d) ∧
    (∀ n parent slot, Edit.Atomic (Edit.addPath n parent slot) d) ∧
    ∀ (q : PathId) (i : Nat), (d.path p).parent = some q → (d.path p).slot = some (i : Int) →
      ∀ nodes, (∃ fault, (perform (Edit.replace p nodes) d).1 = .error fault) ↔
        (d.nodeAt q).children.length ≤ i ∨ (d.nodeAt q).children[i]? ≠ some (d.path p).node ∨
          (d.nodeAt q).fields.length ≤ i := by
  have h := hd.keyed
  refine ⟨h.atomic_replace hp, Edit.atomic_prune (h.atomic_replace hp []),
    fun index => Edit.atomic_child p index d,
    fun n parent slot => Edit.atomic_addPath n parent slot d, fun q i hq hi nodes => ?_⟩
  rw [h.replace_fails_iff hp hq hi nodes, Slot.get?_natCast, Slot.get?_natCast,
    List.getElem?_eq_none_iff]
  constructor
  · exact .inr
  · rintro (hlen | hbad)
    · exact .inl (by simp [List.getElem?_eq_none_iff.2 hlen])
    · exact hbad

theorem failed_call_changes_nothing_turned : rowTurned.Made ∧
    (rowTurned.path 1).parent = some 0 ∧ (rowTurned.path 1).slot = some 2 ∧
    ∃ fault, perform (Edit.replace 1 [0, 1]) rowTurned = (.error fault, rowTurned) := by
  obtain ⟨hreplace, -, -, -, hfails⟩ :=
    failed_call_changes_nothing made_rowTurned (p := 1) (by decide)
  have hslot : (rowTurned.path 1).slot = some (2 : Nat) := by decide
  obtain ⟨fault, hfault⟩ := (hfails 0 2 (by decide) hslot [0, 1]).2 (.inr (.inl (by decide)))
  have hout : perform (Edit.replace 1 [0, 1]) rowTurned =
      (.error fault, (perform (Edit.replace 1 [0, 1]) rowTurned).2) := Prod.ext hfault rfl
  refine ⟨made_rowTurned, by decide, hslot, fault, ?_⟩
  rw [hout, hreplace [0, 1] fault _ hout]

end Retouch
