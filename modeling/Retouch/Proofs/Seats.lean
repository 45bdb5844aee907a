import Retouch.Proofs.Histories
import Retouch.Proofs.Replacing
import Retouch.Proofs.Standing

/-!
# Where paths stand

Nodes keep their kinds, and a path leaves its node only by a replacement that is called on the path
itself and puts it on the first of the new nodes: it takes its seat there. So over any run of edits
(`Reworked`) a path stands on the node of its last seat, or where it stood before if it took none
(`Moved`, `Reworked.moved`).
-/

namespace Retouch

/-- A path and the node that a replacement put it on. -/
structure Seat where
  path : PathId
  node : NodeId
deriving DecidableEq, Repr

/-- The last seat that a path took. -/
def lastSeat : List Seat → PathId → Option NodeId
  | [], _ => none
  | s :: rest, p => (lastSeat rest p).or (if s.path = p then some s.node else none)

theorem lastSeat_append (p : PathId) (more : List Seat) : ∀ seats : List Seat,
    lastSeat (seats ++ more) p = (lastSeat more p).or (lastSeat seats p)
  | [] => (Option.or_none).symm
  | s :: rest => by
    rw [List.cons_append, lastSeat, lastSeat, lastSeat_append p more rest, Option.or_assoc]

/-! ## Forests -/

namespace Forest

/-- Nodes have come, and those that were there are of the kind they were. -/
structure Keeps (f g : Forest) : Prop where
  size : f.size ≤ g.size
  kind : ∀ n : Nat, n < f.size → (g.node n).kind = (f.node n).kind

/-- All children are there. -/
def Closed (f : Forest) : Prop :=
  ∀ n m : Nat, m ∈ (f.node n).children → m < f.size

theorem Keeps.refl (f : Forest) : f.Keeps f :=
  ⟨le_rfl, fun _ _ => rfl⟩

theorem Keeps.trans {f g h : Forest} (hfg : f.Keeps g) (hgh : g.Keeps h) : f.Keeps h :=
  ⟨hfg.size.trans hgh.size, fun n hn =>
    (hgh.kind n (Nat.lt_of_lt_of_le hn hfg.size)).trans (hfg.kind n hn)⟩

theorem keeps_add (f : Forest) (x : Node) : f.Keeps (f.add x).2 := by
  refine ⟨by simp, fun n hn => ?_⟩
  rw [node_add, if_neg (Nat.ne_of_lt hn)]

theorem Closed.add {f : Forest} (h : f.Closed) {x : Node}
    (hx : ∀ m : Nat, m ∈ x.children → m < f.size) :
    (f.add x).2.Closed := by
  intro n m hm
  rw [size_add]
  rw [node_add] at hm
  split_ifs at hm
  · exact Nat.lt_succ_of_lt (hx m hm)
  · exact Nat.lt_succ_of_lt (h n m hm)

theorem keeps_modify (f : Forest) (n : NodeId) {change : Node → Node}
    (h : ∀ x, (change x).kind = x.kind) : f.Keeps (f.modify n change) := by
  refine ⟨by simp, fun m hm => ?_⟩
  by_cases hn : n < f.size
  · rw [node_modify _ _ _ _ hn]
    split_ifs
    · exact h _
    · rfl
  · rw [modify_eq_self (Nat.le_of_not_lt hn)]

theorem Closed.modify {f : Forest} (h : f.Closed) (n : Nat) {change : Node → Node}
    (hc : ∀ m : Nat, m ∈ (change (f.node n)).children → m < f.size) :
    (f.modify n change).Closed := by
  by_cases hn : n < f.size
  · intro k m hm
    rw [size_modify]
    rw [node_modify _ _ _ _ hn] at hm
    split_ifs at hm with hk
    · subst hk
      exact hc m hm
    · exact h k m hm
  · rwa [modify_eq_self (Nat.le_of_not_lt hn)]

end Forest

theorem Slot.mem_splice {α : Type} {items new : List α} {start stop : Int} {a : α}
    (h : a ∈ splice items start stop new) : a ∈ items ∨ a ∈ new := by
  rcases List.mem_append.1 h with h | h
  · rcases List.mem_append.1 h with h | h
    · exact .inl (List.mem_of_mem_take h)
    · exact .inr h
  · exact .inl (List.mem_of_mem_drop h)

namespace SyntaxTree.Rooted

variable {source : Source} {t : SyntaxTree} {f g : Forest} {root : Nat}

theorem keeps (h : Rooted source t f g root) : f.Keeps g :=
  ⟨by rw [h.size]; omega, fun n hn => by rw [h.others n hn]⟩

theorem closed (h : Rooted source t f g root) (hf : f.Closed) : g.Closed := by
  intro n m hm
  have hsize := h.size
  rcases Nat.lt_or_ge n f.size with hn | hn
  · rw [h.others n hn] at hm
    have := hf n m hm
    omega
  · have hn' : n < g.size := Forest.lt_size_of_mem_children hm
    have hroot := h.root_eq
    obtain ⟨t', ht', hle⟩ := h.branches.at (m := n) (by omega) (by omega)
    have hcount := count_eq t'
    rw [ht'.here] at hm
    have := mem_rootIds hm
    omega

end SyntaxTree.Rooted

/-! ## Documents -/

namespace Document

/-- The caches are in order, and paths and children lead to nodes that are there. -/
structure Grounded (d : Document) : Prop where
  keyed : d.Keyed
  stands : ∀ p < d.paths.size, (d.path p).node < d.forest.size
  closed : d.forest.Closed

theorem grounded_empty : Document.empty.Grounded := by
  refine ⟨.start _, fun p hp => absurd hp (Nat.not_lt_zero p), fun n m hm => ?_⟩
  rw [Forest.node_eq_default (Nat.zero_le n)] at hm
  cases hm

/-- Every path stands on its last seat, or where it stood. -/
structure Moved (d : Document) (seats : List Seat) (d' : Document) : Prop where
  paths : d.paths.size ≤ d'.paths.size
  keeps : d.forest.Keeps d'.forest
  node : ∀ p < d.paths.size, (d'.path p).node = (lastSeat seats p).getD (d.path p).node

namespace Moved

variable {d d' d'' : Document} {seats more : List Seat}

theorem refl (d : Document) : Moved d [] d :=
  ⟨le_rfl, .refl _, fun _ _ => rfl⟩

theorem trans (h : Moved d seats d') (h' : Moved d' more d'') : Moved d (seats ++ more) d'' := by
  refine ⟨h.paths.trans h'.paths, h.keeps.trans h'.keeps, fun p hp => ?_⟩
  rw [h'.node p (Nat.lt_of_lt_of_le hp h.paths), h.node p hp, lastSeat_append]
  cases lastSeat more p <;> rfl

/-- A path that took no seat stands on a node of the kind it stood on. -/
theorem kind_of_unseated (h : Moved d seats d') (hd : d.Grounded) {p : Nat}
    (hp : p < d.paths.size) (hs : lastSeat seats p = none) :
    (d'.nodeAt p).kind = (d.nodeAt p).kind := by
  unfold nodeAt
  rw [h.node p hp, hs]
  exact h.keeps.kind _ (hd.stands p hp)

theorem nodeAt_of_seated (h : Moved d seats d') {p : Nat} (hp : p < d.paths.size) {n : NodeId}
    (hs : lastSeat seats p = some n) : d'.nodeAt p = d'.forest.node n := by
  unfold nodeAt
  rw [h.node p hp, hs]
  rfl

end Moved

/-! ## Browsing -/

/-- Paths have come that stand on children, and the others stand where they stood. -/
structure Browsed (d d' : Document) : Prop where
  forest : d'.forest = d.forest
  size : d.paths.size ≤ d'.paths.size
  node : ∀ p < d.paths.size, (d'.path p).node = (d.path p).node
  new : ∀ p < d'.paths.size, d.paths.size ≤ p →
    ∃ n, (d'.path p).node ∈ (d.forest.node n).children

namespace Browsed

variable {d d' d'' : Document}

theorem refl (d : Document) : Browsed d d :=
  ⟨rfl, le_rfl, fun _ _ => rfl, fun _ hp hge => absurd hp (Nat.not_lt_of_ge hge)⟩

theorem trans (h : Browsed d d') (h' : Browsed d' d'') : Browsed d d'' := by
  refine ⟨h'.forest.trans h.forest, h.size.trans h'.size, fun p hp => ?_, fun p hp hge => ?_⟩
  · rw [h'.node p (Nat.lt_of_lt_of_le hp h.size), h.node p hp]
  · rcases Nat.lt_or_ge p d'.paths.size with hlt | hge'
    · rw [h'.node p hlt]
      exact h.new p hlt hge
    · rw [← h.forest]
      exact h'.new p hp hge'

theorem moved (h : Browsed d d') : Moved d [] d' :=
  ⟨h.size, h.forest ▸ .refl _, h.node⟩

theorem grounded (h : Browsed d d') (hd : d.Grounded) (hk : d'.Keyed) : d'.Grounded := by
  refine ⟨hk, fun p hp => ?_, h.forest ▸ hd.closed⟩
  rw [h.forest]
  rcases Nat.lt_or_ge p d.paths.size with hlt | hge
  · rw [h.node p hlt]
    exact hd.stands p hlt
  · obtain ⟨n, hn⟩ := h.new p hp hge
    exact hd.closed n _ hn

end Browsed

theorem node_modifyPath (d : Document) (p q : Nat) (change : Path → Path)
    (h : ∀ x, (change x).node = x.node) :
    ((d.modifyPath p change).path q).node = (d.path q).node := by
  by_cases hp : p < d.paths.size
  · rw [path_modifyPath d p q change hp]
    split_ifs
    · exact h _
    · rfl
  · have hsame : d.modifyPath p change = d := by
      simp only [modifyPath, Array.modify, Array.modifyM, dif_neg hp]
      rfl
    rw [hsame]

/-- A new path in a slot stands on its node, and the others stand where they stood. -/
theorem node_attach (d : Document) (n : NodeId) (parent : PathId) (slot : Int) (q : Nat) :
    ((d.attach n parent slot).2.path q).node =
      if q = d.paths.size then n else (d.path q).node := by
  unfold attach
  refine (node_modifyPath _ parent q
    (fun x => { x with cache := Assoc.insert x.cache slot d.paths.size }) fun _ => rfl).trans ?_
  rw [path_push]
  split_ifs <;> rfl

theorem browsed_attach {d : Document} {n m : NodeId} (h : n ∈ (d.forest.node m).children)
    (parent : PathId) (slot : Int) : Browsed d (d.attach n parent slot).2 := by
  refine ⟨rfl, by simp, fun p hp => ?_, fun p hp hge => ⟨m, ?_⟩⟩
  · rw [node_attach, if_neg (Nat.ne_of_lt hp)]
  · rw [size_attach] at hp
    rwa [node_attach, if_pos (by omega)]

end Document

namespace Edit

open Document

/-- The edit only browses. -/
def Browses {α : Type} (x : Edit α) : Prop :=
  ∀ d, Browsed d (perform x d).2

section Browsing

variable {α β ι : Type}

theorem browses_pure (a : α) : Browses (pure a) := fun d => .refl d

theorem Browses.bind {x : Edit α} {next : α → Edit β} (hx : Browses x)
    (hn : ∀ a, Browses (next a)) : Browses (x >>= next) := by
  intro d
  have hd := hx d
  rw [perform_bind]
  rcases hp : perform x d with ⟨e | a, d'⟩ <;> rw [hp] at hd
  · exact hd
  · exact hd.trans (hn a d')

theorem Browses.mapM {g : ι → Edit α} (hg : ∀ i, Browses (g i)) :
    ∀ is : List ι, Browses (is.mapM g)
  | [] => browses_pure _
  | i :: is => by
    rw [List.mapM_cons]
    exact (hg i).bind fun _ => (Browses.mapM hg is).bind fun _ => browses_pure _

theorem browses_child (p : PathId) (index : Int) : Browses (child p index) := by
  intro d
  rw [perform_child]
  split
  · exact .refl d
  · rename_i n hn
    obtain ⟨i, -, hi⟩ := Slot.get?_eq_some_iff.1 hn
    have hmem : n ∈ (d.forest.node (d.path p).node).children := List.mem_of_getElem? hi
    unfold childIn
    split
    · split_ifs
      · exact .refl d
      · exact browsed_attach hmem _ _
    · exact browsed_attach hmem _ _

theorem browses_childPaths (p : PathId) : Browses (childPaths p) := by
  intro d
  unfold childPaths
  rw [perform_bind_of_ok (perform_get d)]
  exact Browses.mapM (fun i : Nat => browses_child p i) _ d

theorem browses_walkFrom : ∀ (fuel : Nat) (ps : List PathId), Browses (walkFrom fuel ps)
  | 0, [] => browses_pure _
  | _ + 1, [] => browses_pure _
  | 0, _ :: _ => browses_pure _
  | fuel + 1, p :: ps => by
    rw [walkFrom]
    exact (browses_childPaths p).bind fun _ =>
      (browses_walkFrom fuel _).bind fun _ => browses_pure _

theorem browses_walk (p : PathId) : Browses (walk p) := by
  intro d
  unfold walk
  rw [perform_bind_of_ok (perform_get d)]
  exact browses_walkFrom _ _ d

end Browsing

end Edit

/-! ## Replacing -/

/-- The seat that a replacement which succeeds gives. -/
def seatOf (p : PathId) : List NodeId → List Seat
  | [] => []
  | n :: _ => [⟨p, n⟩]

theorem lastSeat_seatOf (p q : PathId) (nodes : List NodeId) :
    lastSeat (seatOf p nodes) q = if p = q then nodes.head? else none := by
  cases nodes <;> simp [seatOf, lastSeat]

namespace Document.Grounded

variable {d : Document} {x y : Nat} {i : Int} {field : Option String} {nodes : List NodeId}

theorem retarget (h : d.Grounded) (hx : x < d.paths.size) {n : Nat} (hn : n < d.forest.size) :
    (d.retarget x n).Grounded ∧ Moved d (seatOf x [n]) (d.retarget x n) := by
  have hsize : (d.retarget x n).paths.size = d.paths.size := size_modifyPath _ _ _
  refine ⟨⟨h.keyed.retarget hx n, fun z hz => ?_, h.closed⟩, hsize.ge, .refl _, fun z _ => ?_⟩
  · rw [path_retarget hx]
    split_ifs
    · exact hn
    · exact h.stands z (hsize ▸ hz)
  · rw [path_retarget hx, lastSeat_seatOf]
    by_cases hz : z = x
    · simp [hz]
    · simp [hz, Ne.symm hz]

section Slots

variable (h : d.Grounded) (hx : x < d.paths.size) (hy : (d.path x).parent = some y)
  (hi : (d.path x).slot = some i) (hn : ∀ n : Nat, n ∈ nodes → n < d.forest.size)

include h hx hy hi hn

theorem reseat : (d.reseat x y i field nodes).Grounded ∧
    Moved d (seatOf x nodes) (d.reseat x y i field nodes) := by
  have hkeeps : d.forest.Keeps (d.reseat x y i field nodes).forest := by
    rw [forest_reseat, forest_spliceSlot]
    exact Forest.keeps_modify _ _ fun _ => rfl
  have hnode : ∀ z, ((d.reseat x y i field nodes).path z).node =
      (lastSeat (seatOf x nodes) z).getD (d.path z).node := by
    intro z
    rw [lastSeat_seatOf]
    by_cases hz : x = z
    · subst hz
      rw [h.keyed.path_reseat_self hx hy hi, if_pos rfl]
      cases nodes <;> rfl
    · rw [(h.keyed.keeps_reseat hx hy (Ne.symm hz)).1, if_neg hz]
      rfl
  refine ⟨⟨h.keyed.reseat hx hy hi, fun z hz => ?_, ?_⟩, (size_reseat ..).ge, hkeeps,
    fun z _ => hnode z⟩
  · rw [size_reseat] at hz
    refine Nat.lt_of_lt_of_le ?_ hkeeps.size
    rw [hnode, lastSeat_seatOf]
    split_ifs
    · cases nodes with
      | nil => exact h.stands z hz
      | cons n rest => exact hn n (List.mem_cons_self ..)
    · exact h.stands z hz
  · rw [forest_reseat, forest_spliceSlot]
    refine h.closed.modify _ fun m hm => ?_
    rcases Slot.mem_splice hm with hm | hm
    · exact h.closed _ m hm
    · exact hn m hm

end Slots

/-- A replacement that succeeds gives its path a seat, and one that fails moves no path. -/
theorem replace (h : d.Grounded) (hx : x < d.paths.size)
    (hn : ∀ n : Nat, n ∈ nodes → n < d.forest.size) :
    (perform (Edit.replace x nodes) d).2.Grounded ∧
      ((∃ qs, (perform (Edit.replace x nodes) d).1 = .ok qs) ∧
          Moved d (seatOf x nodes) (perform (Edit.replace x nodes) d).2 ∨
        (∃ f, (perform (Edit.replace x nodes) d).1 = .error f) ∧
          Moved d [] (perform (Edit.replace x nodes) d).2) := by
  rcases Edit.replace_cases x nodes d with ⟨e, hd⟩ | ⟨n, rfl, -, hd⟩ |
    ⟨y, i, field, hy, hi, hheld, hfield, -⟩
  · rw [hd]
    exact ⟨h, .inr ⟨⟨e, rfl⟩, .refl d⟩⟩
  · rw [hd]
    obtain ⟨hg, hm⟩ := h.retarget hx (hn n (List.mem_singleton_self n))
    exact ⟨hg, .inl ⟨⟨_, rfl⟩, hm⟩⟩
  · obtain ⟨hg, hm⟩ : (d.reseat x y i field nodes).Grounded ∧
        Moved d (seatOf x nodes) (d.reseat x y i field nodes) := h.reseat hx hy hi hn
    obtain ⟨qs, d', hd, hr⟩ := h.keyed.replace_ok hx hy hi hheld hfield nodes
    -- behind the seat, the paths of the other new nodes are only looked up
    have hb : Browsed (d.reseat x y i field nodes) d' := by
      rw [Edit.perform_replace_held hy hi hheld hfield] at hd
      cases nodes with
      | nil =>
        cases hd
        exact .refl _
      | cons n rest =>
        have hbrowse := (Edit.Browses.mapM (fun j : Nat => Edit.browses_child y (i + 1 + j))
          (List.range rest.length)).bind fun others => Edit.browses_pure (x :: others)
        have hlast : (perform _ (d.reseat x y i field (n :: rest))).2 = d' := congrArg Prod.snd hd
        exact hlast ▸ hbrowse _
    rw [hd]
    refine ⟨hb.grounded hg hr.keyed, .inl ⟨⟨qs, rfl⟩, ?_⟩⟩
    have := hm.trans hb.moved
    rwa [List.append_nil] at this

end Document.Grounded

/-! ## Runs of edits -/

namespace Act

/-- The act is called on a path that is there, with nodes that are there. -/
def Known (d : Document) (a : Act) : Prop :=
  a.OnPath d ∧ match a with
    | make node => ∀ n : Nat, n ∈ node.children → n < d.forest.size
    | replace _ nodes => ∀ n : Nat, n ∈ nodes → n < d.forest.size
    | child _ _ | childPaths _ | walk _ | prune _ => True

/-- The seat that an act gives. -/
def seats (d : Document) : Act → List Seat
  | replace p nodes =>
    match (perform (Edit.replace p nodes) d).1 with
    | .ok _ => seatOf p nodes
    | .error _ => []
  | make _ | child _ _ | childPaths _ | walk _ | prune _ => []

end Act

namespace Document

theorem Grounded.step {d : Document} (h : d.Grounded) {a : Act} (ha : a.Known d) :
    (a.after d).Grounded ∧ Moved d (a.seats d) (a.after d) := by
  have hkeyed := h.keyed.step ha.1
  cases a with
  | make node =>
    simp only [Act.after, Edit.perform_addNode] at hkeyed ⊢
    refine ⟨⟨hkeyed, fun p hp => ?_, h.closed.add ha.2⟩, le_rfl, Forest.keeps_add _ _,
      fun _ _ => rfl⟩
    rw [Forest.size_add]
    exact Nat.lt_succ_of_lt (h.stands p hp)
  | child p index =>
    have hb := Edit.browses_child p index d
    exact ⟨hb.grounded h hkeyed, hb.moved⟩
  | childPaths p =>
    have hb := Edit.browses_childPaths p d
    exact ⟨hb.grounded h hkeyed, hb.moved⟩
  | walk p =>
    have hb := Edit.browses_walk p d
    exact ⟨hb.grounded h hkeyed, hb.moved⟩
  | replace p nodes =>
    obtain ⟨hg, ⟨⟨qs, hok⟩, hm⟩ | ⟨⟨f, hf⟩, hm⟩⟩ := h.replace (ha.1 p rfl) ha.2
    · refine ⟨hg, ?_⟩
      rw [Act.seats, hok]
      exact hm
    · refine ⟨hg, ?_⟩
      rw [Act.seats, hf]
      exact hm
  | prune p =>
    have hnone : ∀ n : Nat, n ∈ ([] : List NodeId) → n < d.forest.size :=
      fun _ hn => absurd hn List.not_mem_nil
    rw [Act.after, Kept.perform_prune]
    obtain ⟨hg, ⟨-, hm⟩ | ⟨-, hm⟩⟩ := h.replace (ha.1 p rfl) hnone
    · exact ⟨hg, hm⟩
    · exact ⟨hg, hm⟩

theorem Grounded.addRoot {d : Document} (h : d.Grounded) {n : Nat} (hn : n < d.forest.size) :
    (d.addRoot n).2.Grounded ∧ Moved d [] (d.addRoot n).2 := by
  have hpath : ∀ z, (d.addRoot n).2.path z =
      if z = d.paths.size then ⟨n, none, none, []⟩ else d.path z := path_push d _
  have hsize : (d.addRoot n).2.paths.size = d.paths.size + 1 := Array.size_push _
  refine ⟨⟨h.keyed.addRoot n, fun z hz => ?_, h.closed⟩, by omega, .refl _, fun z hz => ?_⟩
  · rw [hsize] at hz
    rw [hpath]
    split_ifs with hlast
    · exact hn
    · exact h.stands z (Nat.lt_of_le_of_ne (Nat.le_of_lt_succ hz) hlast)
  · rw [hpath, if_neg (Nat.ne_of_lt hz)]
    rfl

theorem Grounded.addPath {d : Document} (h : d.Grounded) {n : Nat} {parent : Option PathId}
    (hn : n < d.forest.size) (hp : ∀ p, parent = some p → p < d.paths.size) (slot : Option Int) :
    (perform (Edit.addPath n parent slot) d).2.Grounded ∧
      Moved d [] (perform (Edit.addPath n parent slot) d).2 := by
  unfold Edit.addPath
  split
  · exact h.addRoot hn
  · rename_i q i
    rw [perform_bind_of_ok (perform_get d)]
    split
    · exact ⟨h, .refl d⟩
    · rename_i m hm
      obtain ⟨j, -, hj⟩ := Slot.get?_eq_some_iff.1 hm
      split_ifs with he
      · have hb : Browsed d (d.attach n q i).2 :=
          browsed_attach (he ▸ List.mem_of_getElem? hj) q i
        exact ⟨hb.grounded h (h.keyed.attach (hp q rfl) n i), hb.moved⟩
      · exact ⟨h, .refl d⟩
  · exact ⟨h, .refl d⟩

/-- A document after a run of edits, with the seats that paths took: acts are called on paths and
with nodes that are there, paths are built on nodes that are there, and nodes may be changed in any
way that keeps their kinds. -/
inductive Reworked (d : Document) : List Seat → Document → Prop
  | refl : Reworked d [] d
  | act {seats : List Seat} {d' : Document} (a : Act) : Reworked d seats d' → a.Known d' →
      Reworked d (seats ++ a.seats d') (a.after d')
  | path {seats : List Seat} {d' : Document} {n : Nat} {parent : Option PathId}
      (slot : Option Int) : Reworked d seats d' → n < d'.forest.size →
      (∀ p, parent = some p → p < d'.paths.size) →
      Reworked d seats (perform (Edit.addPath n parent slot) d').2
  | nodes {seats : List Seat} {d' : Document} {f : Forest} : Reworked d seats d' →
      d'.forest.Keeps f → f.Closed → Reworked d seats { d' with forest := f }

theorem Reworked.moved {d d' : Document} {seats : List Seat} (h : Reworked d seats d')
    (hd : d.Grounded) : d'.Grounded ∧ Moved d seats d' := by
  induction h with
  | refl => exact ⟨hd, .refl d⟩
  | act a _ ha ih =>
    obtain ⟨hg, hm⟩ := ih.1.step ha
    exact ⟨hg, ih.2.trans hm⟩
  | path slot _ hn hp ih =>
    obtain ⟨hg, hm⟩ := ih.1.addPath hn hp slot
    have hm := ih.2.trans hm
    rw [List.append_nil] at hm
    exact ⟨hg, hm⟩
  | @nodes _ d' f _ hk hc ih =>
    refine ⟨⟨ih.1.keyed.of_paths rfl, fun p hp => ?_, hc⟩, ih.2.paths, ih.2.keeps.trans hk,
      ih.2.node⟩
    exact Nat.lt_of_lt_of_le (ih.1.stands p hp) hk.size

end Document

end Retouch
