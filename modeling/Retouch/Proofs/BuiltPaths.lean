import Retouch.Proofs.Replacing

/-!
# Paths built for a slot

A path can be built for any slot that holds its node, counted from either end. One counted from the
front is the slot that the path edits, as long as it has a field. From the end it is another matter.
The slot `-1` is the last one when it is read, but the cut from `-1` to the slot behind it is empty:
new nodes go in front of the last child, and nothing is taken out. A slot further from the end is
cut where it is read, given as many fields as children; but the children behind it are as many as
before, so that the path, which stands on the first of the new nodes, names the last of them.
-/

namespace Retouch

namespace Document

/-- Replacing through the path `q` puts nodes in the place of the child at `j` of the path `p`, each
in the field of that slot, and leaves `q` on the node in its slot. -/
def ReplacesAt (d : Document) (p q : PathId) (j : Nat) (nodes : List NodeId) : Prop :=
  ∃ answer d' field, perform (Edit.replace q nodes) d = (.ok answer, d') ∧
    (d'.path p).node = (d.path p).node ∧
    (d'.nodeAt p).children =
      (d.nodeAt p).children.take j ++ nodes ++ (d.nodeAt p).children.drop (j + 1) ∧
    (d.nodeAt p).fields[j]? = some field ∧
    (d'.nodeAt p).fields = (d.nodeAt p).fields.take j ++ List.replicate nodes.length field ++
      (d.nodeAt p).fields.drop (j + 1) ∧
    (nodes ≠ [] → ∃ slot, (d'.path q).slot = some slot ∧
      Slot.get? (d'.nodeAt p).children slot = some (d'.path q).node)

/-- Pruning the path `q` takes out the child at `j` of the path `p` and its field. -/
def PrunesAt (d : Document) (p q : PathId) (j : Nat) : Prop :=
  ∃ d', perform (Edit.prune q) d = (.ok (some p), d') ∧
    (d'.path p).node = (d.path p).node ∧
    (d'.nodeAt p).children = (d.nodeAt p).children.eraseIdx j ∧
    (d'.nodeAt p).fields = (d.nodeAt p).fields.eraseIdx j

/-- The path `q` names the slot `i` of the path `p`, which is the child at `j` and holds its
node. -/
structure Names (d : Document) (p q : Nat) (i : Int) (j : Nat) : Prop where
  inRange : q < d.paths.size
  parent : (d.path q).parent = some p
  slot : (d.path q).slot = some i
  place : Slot.fromFront (d.nodeAt p).children.length i = j
  held : (d.nodeAt p).children[j]? = some (d.path q).node

theorem ReplacesAt.prunesAt {d : Document} {p q : PathId} {j : Nat} (h : d.ReplacesAt p q j [])
    (hp : (d.path q).parent = some p) : d.PrunesAt p q j := by
  obtain ⟨answer, d', field, hd, hnode, hchildren, -, hfields, -⟩ := h
  refine ⟨d', ?_, hnode, ?_, ?_⟩
  · unfold Edit.prune
    rw [perform_bind_of_ok (perform_get d), perform_bind_of_ok hd, hp]
    rfl
  · rw [hchildren, List.append_nil, List.eraseIdx_eq_take_drop_succ]
  · rw [hfields, List.length_nil, List.replicate_zero, List.append_nil,
      List.eraseIdx_eq_take_drop_succ]

namespace Names

variable {d d' : Document} {p q j : Nat} {i : Int} {nodes : List NodeId}

theorem get? (hq : d.Names p q i j) :
    Slot.get? (d.nodeAt p).children i = some (d.path q).node :=
  Slot.get?_eq_some_iff.2 ⟨j, hq.place, hq.held⟩

/-- A replacement that succeeds has found a field in the slot. -/
theorem replaced (h : d.Keyed) (hq : d.Names p q i j) {answer : List PathId}
    (hd : perform (Edit.replace q nodes) d = (.ok answer, d')) :
    ∃ field, d.Replaced q p i field nodes d' := by
  rcases Edit.replace_cases q nodes d with ⟨e, he⟩ | ⟨n, -, hp, -⟩ |
    ⟨y, slot, field, hy, hs, -, hfield, -⟩
  · rw [hd] at he
    cases he
  · rw [hq.parent] at hp
    cases hp
  · cases hy.symm.trans hq.parent
    cases hs.symm.trans hq.slot
    obtain ⟨qs, d1, hd1, hr⟩ := h.replace_ok hq.inRange hq.parent hq.slot hq.get? hfield nodes
    cases hd.symm.trans hd1
    exact ⟨field, hr⟩

/-! ## Where the slot is cut as it is read -/

section Inner

variable (h : d.Keyed) (hq : d.Names p q i j)

include h hq

theorem get?_of_replacesAt {n : NodeId} {rest : List NodeId}
    (hr : d.ReplacesAt p q j (n :: rest)) :
    Slot.get? ((d.nodeAt p).children.take j ++ n :: rest ++ (d.nodeAt p).children.drop (j + 1)) i =
      some n := by
  obtain ⟨answer, d', field, hd, -, hchildren, -, -, hslot⟩ := hr
  obtain ⟨f, hr⟩ := hq.replaced h hd
  obtain ⟨hnode, -, hs⟩ := hr.seat n rest rfl
  obtain ⟨slot, hs', hget⟩ := hslot (by simp)
  -- the path is seated in the slot that it named before
  cases hs.symm.trans hs'
  rwa [hchildren, hnode] at hget

/-- Where the slot designates the field of the child as well, and is not `-1`, the slot is edited if
the path finds the first of the nodes in it. -/
theorem replacesAt_iff (hi : i ≠ -1) (hplace : Slot.fromFront (d.nodeAt p).fields.length i = j)
    (hj : j < (d.nodeAt p).fields.length) : d.ReplacesAt p q j nodes ↔ ∀ n rest, nodes = n :: rest →
      Slot.get? ((d.nodeAt p).children.take j ++ n :: rest ++ (d.nodeAt p).children.drop (j + 1)) i
        = some n := by
  constructor
  · rintro hr n rest rfl
    exact hq.get?_of_replacesAt h hr
  intro hfirst
  obtain ⟨field, hf⟩ : ∃ field, (d.nodeAt p).fields[j]? = some field :=
    ⟨_, List.getElem?_eq_getElem hj⟩
  have hfield : Slot.get? (d.nodeAt p).fields i = some field :=
    Slot.get?_eq_some_iff.2 ⟨j, hplace, hf⟩
  obtain ⟨answer, d', hd, hr⟩ := h.replace_ok hq.inRange hq.parent hq.slot hq.get? hfield nodes
  have hpq : p ≠ q := Nat.ne_of_lt (h.older q p hq.parent)
  have hchildren : (d'.nodeAt p).children =
      (d.nodeAt p).children.take j ++ nodes ++ (d.nodeAt p).children.drop (j + 1) := by
    rw [hr.holder]
    exact Slot.splice_of_ne_last hq.place (List.getElem?_eq_some_iff.1 hq.held).1 hi nodes
  refine ⟨answer, d', field, hd, hr.node p (h.lt_of_parent hq.parent) hpq, hchildren, hf, ?_, ?_⟩
  · rw [hr.holder]
    exact Slot.splice_of_ne_last hplace hj hi _
  · intro hne
    obtain ⟨n, rest, rfl⟩ := List.exists_cons_of_ne_nil hne
    obtain ⟨hnode, -, hs⟩ := hr.seat n rest rfl
    exact ⟨i, hs, by rw [hchildren, hnode, hfirst n rest rfl]⟩

/-- A slot counted from the front keeps its place, whatever comes behind it. -/
theorem replacesAt_of_front (hi : 0 ≤ i) (hj : j < (d.nodeAt p).fields.length)
    (nodes : List NodeId) : d.ReplacesAt p q j nodes := by
  obtain ⟨i, rfl⟩ := Int.eq_ofNat_of_zero_le hi
  have hij : i = j := by simpa using hq.place
  subst hij
  have hlt := (List.getElem?_eq_some_iff.1 hq.held).1
  refine (hq.replacesAt_iff h (by omega) (by simp) hj).2 fun n rest _ => ?_
  rw [Slot.get?_natCast, List.append_assoc, List.getElem?_append_right (by simp)]
  simp [Nat.min_eq_left hlt.le]

end Inner

/-- Behind a slot counted from the end there are as many children as before, so the slot designates
the last of the nodes. -/
theorem get?_from_end (hq : d.Names p q i j) (hi : i ≤ -2) (hn : nodes ≠ []) :
    Slot.get? ((d.nodeAt p).children.take j ++ nodes ++ (d.nodeAt p).children.drop (j + 1)) i =
      nodes.getLast? := by
  have hlt := (List.getElem?_eq_some_iff.1 hq.held).1
  have hpos : 0 < nodes.length := List.length_pos_iff.2 hn
  have hplace := hq.place
  have hlast : (((d.nodeAt p).children.take j ++ nodes ++
      (d.nodeAt p).children.drop (j + 1)))[j + (nodes.length - 1)]? = nodes.getLast? := by
    rw [List.append_assoc, List.getElem?_append_right (by simp), List.length_take,
      Nat.min_eq_left hlt.le, Nat.add_sub_cancel_left, List.getElem?_append_left (by omega),
      List.getLast?_eq_getElem?]
  rw [List.getLast?_eq_some_getLast hn] at hlast ⊢
  refine Slot.get?_eq_some_iff.2 ⟨j + (nodes.length - 1), ?_, hlast⟩
  unfold Slot.fromFront at hplace ⊢
  rw [if_pos (by omega)] at hplace ⊢
  simp only [List.length_append, List.length_take, List.length_drop]
  omega

/-- Another slot counted from the end is edited by nodes of which the first is the last one. -/
theorem replacesAt_iff_of_end (h : d.Keyed) (hq : d.Names p q i j) (hi : i ≤ -2)
    (hlen : (d.nodeAt p).fields.length = (d.nodeAt p).children.length) :
    d.ReplacesAt p q j nodes ↔ nodes.head? = nodes.getLast? := by
  have hlt := (List.getElem?_eq_some_iff.1 hq.held).1
  rw [hq.replacesAt_iff h (by omega) (by rw [hlen]; exact hq.place) (by omega)]
  cases nodes with
  | nil => simp
  | cons n rest =>
    constructor
    · intro hall
      rw [List.head?_cons, ← hall n rest rfl, hq.get?_from_end hi (by simp)]
    · rintro heq _ _ ⟨⟩
      rw [hq.get?_from_end hi (by simp), ← heq, List.head?_cons]

/-! ## The last slot -/

section Last

variable (h : d.Keyed) (hq : d.Names p q (-1) j)

include h hq

/-- Nodes put in the slot `-1` stand in front of the last child, which stays. -/
theorem children_of_last {answer : List PathId}
    (hd : perform (Edit.replace q nodes) d = (.ok answer, d')) : (d'.nodeAt p).children =
      (d.nodeAt p).children.take j ++ nodes ++ (d.nodeAt p).children.drop j := by
  obtain ⟨field, hr⟩ := hq.replaced h hd
  have hplace := hq.place
  have hlt := (List.getElem?_eq_some_iff.1 hq.held).1
  have hj : (d.nodeAt p).children.length - 1 = j := by
    unfold Slot.fromFront at hplace
    rw [if_pos (by omega)] at hplace
    omega
  rw [hr.holder, ← hj]
  exact Slot.splice_last _ nodes

theorem replace_last (hf : 0 < (d.nodeAt p).fields.length) (nodes : List NodeId) :
    ∃ answer d', perform (Edit.replace q nodes) d = (.ok answer, d') ∧ (d'.nodeAt p).children =
      (d.nodeAt p).children.take j ++ nodes ++ (d.nodeAt p).children.drop j := by
  have hin : (Slot.get? (d.nodeAt p).fields (-1)).isSome := Slot.get?_isSome_iff.2 (by omega)
  obtain ⟨field, hfield⟩ := Option.isSome_iff_exists.1 hin
  obtain ⟨answer, d', hd, -⟩ := h.replace_ok hq.inRange hq.parent hq.slot hq.get? hfield nodes
  exact ⟨answer, d', hd, hq.children_of_last h hd⟩

theorem not_replacesAt_last (nodes : List NodeId) : ¬ d.ReplacesAt p q j nodes := by
  rintro ⟨answer, d', field, hd, -, hchildren, -⟩
  have hlt := (List.getElem?_eq_some_iff.1 hq.held).1
  rw [hq.children_of_last h hd, List.append_cancel_left_eq] at hchildren
  have hlen := congrArg List.length hchildren
  simp only [List.length_drop] at hlen
  omega

theorem not_prunesAt_last : ¬ d.PrunesAt p q j := by
  rintro ⟨d', hd, -, hchildren, -⟩
  have hlt := (List.getElem?_eq_some_iff.1 hq.held).1
  unfold Edit.prune at hd
  rw [perform_bind_of_ok (perform_get d)] at hd
  obtain ⟨answer, d1, hd1, hret⟩ := perform_bind_eq_ok.1 hd
  rw [perform_pure] at hret
  cases (Prod.mk.inj hret).2
  rw [hq.children_of_last h hd1, List.append_nil, List.take_append_drop] at hchildren
  have hlen := congrArg List.length hchildren
  rw [List.length_eraseIdx_of_lt hlt] at hlen
  omega

end Last

/-- Only a slot that is counted from the front and has a field takes any nodes. -/
theorem front_of_replacesAt (h : d.Keyed) (hq : d.Names p q i j)
    (hall : ∀ nodes, d.ReplacesAt p q j nodes) : 0 ≤ i ∧ j < (d.nodeAt p).fields.length := by
  constructor
  · by_contra hneg
    rcases (show i = -1 ∨ i ≤ -2 by omega) with rfl | hi
    · exact hq.not_replacesAt_last h [] (hall [])
    · -- two nodes tell the first of them from the last
      have hfirst := hq.get?_of_replacesAt h (hall [0, 1])
      rw [hq.get?_from_end hi (by simp)] at hfirst
      cases hfirst
  · obtain ⟨-, -, field, -, -, -, hf, -⟩ := hall []
    exact (List.getElem?_eq_some_iff.1 hf).1

end Names

theorem names_addPath {d d' : Document} {p q : Nat} (hp : p < d.paths.size) {n : NodeId} {i : Int}
    (hq : perform (Edit.addPath n (some p) (some i)) d = (.ok q, d')) :
    ∃ j, Slot.position? (d.nodeAt p).children.length i = some j ∧
      (d.nodeAt p).children[j]? = some n ∧ d'.nodeAt p = d.nodeAt p ∧ d'.Names p q i j := by
  unfold Edit.addPath at hq
  rw [perform_bind_of_ok (perform_get d)] at hq
  split at hq
  · cases hq
  rename_i m hm
  split_ifs at hq with hmn
  · subst hmn
    obtain ⟨j, hj, hheld⟩ := Slot.get?_eq_some_iff.1 hm
    have hlt := (List.getElem?_eq_some_iff.1 hheld).1
    have hnew := path_attach_new (n := m) hp i
    have hsame : (d.attach m p i).2.nodeAt p = d.nodeAt p := by
      unfold nodeAt
      rw [path_attach_old hp i hp, forest_attach]
    cases hq
    refine ⟨j, ?_, hheld, hsame, ?_, ?_, ?_, ?_, ?_⟩
    · rw [Slot.position?, hj, if_pos (by omega), Int.toNat_natCast]
    · change d.paths.size < (d.attach m p i).2.paths.size
      simp
    · exact congrArg Path.parent hnew
    · exact congrArg Path.slot hnew
    · exact hsame ▸ hj
    · change ((d.attach m p i).2.nodeAt p).children[j]? = some ((d.attach m p i).2.path _).node
      rw [hsame, hnew, hheld]
  · cases hq

end Document

/-- A path built for a slot edits that slot, whatever nodes are put there, if the slot is counted
from the front and has a field, and in no other case. The slot `-1` is never edited: nodes are put
in front of its child. A slot further from the end is edited, where there are as many fields as
children, by no nodes or if the first of the nodes is the last one. -/
theorem built_path_edits_own_slot {d d₁ : Document} (hd : d.Made) {p q : Nat}
    (hp : p < d.paths.size) {n : NodeId} {i : Int}
    (hq : perform (Edit.addPath n (some p) (some i)) d = (.ok q, d₁)) :
    ∃ j, Slot.position? (d.nodeAt p).children.length i = some j ∧
      (d.nodeAt p).children[j]? = some n ∧ d₁.nodeAt p = d.nodeAt p ∧
      (((∀ nodes, d₁.ReplacesAt p q j nodes) ∧ d₁.PrunesAt p q j) ↔
        0 ≤ i ∧ j < (d.nodeAt p).fields.length) ∧
      (i = -1 → (∀ nodes, ¬ d₁.ReplacesAt p q j nodes) ∧ ¬ d₁.PrunesAt p q j ∧
        (0 < (d.nodeAt p).fields.length → ∀ nodes, ∃ answer d₂,
          perform (Edit.replace q nodes) d₁ = (.ok answer, d₂) ∧ (d₂.nodeAt p).children =
            (d.nodeAt p).children.take j ++ nodes ++ (d.nodeAt p).children.drop j)) ∧
      (i ≤ -2 → (d.nodeAt p).fields.length = (d.nodeAt p).children.length →
        (∀ nodes, d₁.ReplacesAt p q j nodes ↔ nodes.head? = nodes.getLast?) ∧
          d₁.PrunesAt p q j) := by
  obtain ⟨j, hj, hheld, hsame, hnames⟩ := Document.names_addPath hp hq
  have h : d₁.Keyed := by
    have hmade := hd.path n (some p) (some i) (by rintro _ ⟨⟩; exact hp)
    rw [hq] at hmade
    exact hmade.keyed
  refine ⟨j, hj, hheld, hsame, ?_, ?_, ?_⟩
  · rw [← hsame]
    refine ⟨fun hall => hnames.front_of_replacesAt h hall.1, ?_⟩
    rintro ⟨hi, hf⟩
    have hall := hnames.replacesAt_of_front h hi hf
    exact ⟨hall, (hall []).prunesAt hnames.parent⟩
  · rintro rfl
    rw [← hsame]
    exact ⟨hnames.not_replacesAt_last h, hnames.not_prunesAt_last h, hnames.replace_last h⟩
  · intro hi hlen
    rw [← hsame] at hlen
    have hall : ∀ nodes, d₁.ReplacesAt p q j nodes ↔ nodes.head? = nodes.getLast? :=
      fun _ => hnames.replacesAt_iff_of_end h hi hlen
    exact ⟨hall, ((hall []).2 rfl).prunesAt hnames.parent⟩

/-- A root path over a node with a child in two slots. -/
def stripRoot : Document :=
  (perform (Edit.addPath 2 none none) ⟨⟨#[.leaf "a" "1" true, .leaf "b" "2" true,
    .branch "strip" [0, 1, 0] [some "x", none, some "y"]]⟩, #[]⟩).2

theorem made_stripRoot : stripRoot.Made :=
  .path 2 none none (.start _) (by simp)

/-- A path is built for the third slot. -/
def stripBuilt : Document :=
  (perform (Edit.addPath 0 (some 0) (some 2)) stripRoot).2

theorem built_path_edits_own_slot_strip : stripRoot.Made ∧
    perform (Edit.addPath 0 (some 0) (some 2)) stripRoot = (.ok 1, stripBuilt) ∧
    (∀ nodes, stripBuilt.ReplacesAt 0 1 2 nodes) ∧ stripBuilt.PrunesAt 0 1 2 := by
  have hbuilt : perform (Edit.addPath 0 (some 0) (some 2)) stripRoot = (.ok 1, stripBuilt) :=
    perform_eq_of_toOption (by decide)
  obtain ⟨j, hj, -, -, hfront, -⟩ := built_path_edits_own_slot made_stripRoot (by decide) hbuilt
  have htwo : Slot.position? (stripRoot.nodeAt 0).children.length 2 = some 2 := by decide
  cases hj.symm.trans htwo
  exact ⟨made_stripRoot, hbuilt, hfront.2 (by decide)⟩

/-- A path is built for the same slot, counted from the end. -/
def stripLast : Document :=
  (perform (Edit.addPath 0 (some 0) (some (-1))) stripRoot).2

/-- The path built for the last slot is pruned, and its child stays. -/
theorem built_path_misses_last_slot :
    perform (Edit.addPath 0 (some 0) (some (-1))) stripRoot = (.ok 1, stripLast) ∧
      Slot.position? (stripRoot.nodeAt 0).children.length (-1) = some 2 ∧
      (perform (Edit.prune 1) stripLast).1.toOption = some (some 0) ∧
      ((perform (Edit.prune 1) stripLast).2.nodeAt 0).children = [0, 1, 0] ∧
      ¬ stripLast.PrunesAt 0 1 2 := by
  refine ⟨perform_eq_of_toOption (by decide), by decide, by decide, by decide, ?_⟩
  rintro ⟨d', hd, -, hchildren, -⟩
  rw [← show (perform (Edit.prune 1) stripLast).2 = d' from congrArg Prod.snd hd] at hchildren
  exact absurd hchildren (by decide)

end Retouch
