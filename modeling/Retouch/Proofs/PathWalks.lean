import Retouch.Proofs.Ancestors
import Retouch.Proofs.PathCalls

/-!
# Walks over paths

A walk over paths asks each path that it comes by for its child paths and goes on with them. It
leaves a document where all these child paths are known (`Edit.walkFrom_tours`). In such a document
the same walk finds the same paths and changes nothing (`Tour.walkFrom_eq`). The nodes that it comes
by are those of the forest's own walk (`Tour.nodes`), and every path fills a slot of its parent and
has the start of the walk above it (`Tour.place`).
-/

namespace Retouch

theorem perform_mapM_same {σ ι α : Type} {g : ι → ExceptT Fault (StateM σ) α} {s : σ}
    {is : List ι} {as : List α}
    (h : List.Forall₂ (fun i a => perform (g i) s = (.ok a, s)) is as) :
    perform (is.mapM g) s = (.ok as, s) := by
  induction h with
  | nil => rfl
  | cons ha _ ih =>
    rw [List.mapM_cons, perform_bind_of_ok ha, perform_bind_of_ok ih]
    rfl

namespace Document

/-! ## Tours -/

/-- The child paths of `p` are known, one for each child, and each stands on its child. -/
structure Known (d : Document) (p : PathId) (below : List PathId) : Prop where
  length : below.length = (d.nodeAt p).children.length
  entry : ∀ (i : Nat) q, below[i]? = some q → ((i : Int), q) ∈ (d.path p).cache
  node : ∀ (i : Nat) q, below[i]? = some q → (d.nodeAt p).children[i]? = some (d.path q).node

/-- A walk from the paths on a stack, with the child paths known of every path it comes by. -/
inductive Tour (d : Document) : List PathId → List PathId → Prop
  | nil : Tour d [] []
  | cons {p : PathId} {below rest found : List PathId} : d.Known p below →
      Tour d (below ++ rest) found → Tour d (p :: rest) (p :: found)

section Known

variable {d d' : Document} {p : Nat} {below : List PathId}

theorem Known.nodes (hk : d.Known p below) :
    (below.map fun q => (d.path q).node) = (d.nodeAt p).children := by
  refine List.ext_getElem? fun i => ?_
  rw [List.getElem?_map]
  rcases hq : below[i]? with _ | q
  · have hlen := List.getElem?_eq_none_iff.1 hq
    rw [hk.length] at hlen
    rw [Option.map_none, List.getElem?_eq_none hlen]
  · rw [hk.node i q hq, Option.map_some]

theorem Known.seen (hk : d.Known p below) (h : d.Keyed) (hp : p < d.paths.size)
    (hs : Seen d d') : d'.Known p below := by
  have hsame := hs.nodeAt hp
  have hin : ∀ (i : Nat) (q : Nat), below[i]? = some q → q < d.paths.size :=
    fun i q hq => h.inRange p i q (hk.entry i q hq)
  refine ⟨by rw [hsame, hk.length], fun i q hq => ?_, fun i q hq => ?_⟩
  · exact hs.entry p hp q (hin i q hq) i (hk.entry i q hq) (hk.node i q hq)
  · rw [hsame, hk.node i q hq, hs.node q (hin i q hq)]

theorem Known.fills (hk : d.Known p below) (h : d.Keyed) {q : PathId} (hq : q ∈ below) :
    ∃ i, d.Fills q p i := by
  obtain ⟨i, hi⟩ := List.getElem?_of_mem hq
  have hentry := hk.entry i q hi
  exact ⟨i, h.parent p i q hentry, h.slot p i q hentry, hk.node i q hi⟩

/-- Child paths that are known are given again, and nothing changes. -/
theorem Known.childPaths_eq (hk : d.Known p below) (h : d.Keyed) :
    perform (Edit.childPaths p) d = (.ok below, d) := by
  unfold Edit.childPaths
  rw [perform_bind_of_ok (perform_get d)]
  refine perform_mapM_same (List.forall₂_iff_get.2 ⟨by simp [hk.length], fun i hi hq => ?_⟩)
  have hentry := hk.entry i _ (List.getElem?_eq_getElem hq)
  have hnode := hk.node i _ (List.getElem?_eq_getElem hq)
  simp only [List.get_eq_getElem, List.getElem_range]
  refine Edit.child_known h ?_ (by rw [Slot.get?_natCast, hnode])
  rwa [Slot.fromFront_natCast]

end Known

namespace Tour

variable {d : Document} {stack found : List PathId}

/-- The walk finds the paths of the tour, and nothing changes. -/
theorem walkFrom_eq (ht : d.Tour stack found) (h : d.Keyed) :
    ∀ {fuel : Nat}, found.length ≤ fuel → perform (Edit.walkFrom fuel stack) d = (.ok found, d) := by
  induction ht with
  | nil =>
    rintro (_ | fuel) _ <;> rfl
  | cons hk _ ih =>
    rintro (_ | fuel) hfuel
    · cases hfuel
    · rw [Edit.walkFrom, perform_bind_of_ok (hk.childPaths_eq h),
        perform_bind_of_ok (ih (Nat.le_of_succ_le_succ hfuel))]
      rfl

/-- The nodes of the paths are those of the forest's walk, in its order. -/
theorem nodes (ht : d.Tour stack found) : ∀ {fuel : Nat}, found.length ≤ fuel →
    (found.map fun q => (d.path q).node) =
      d.forest.walkFrom fuel (stack.map fun p => (d.path p).node) := by
  induction ht with
  | nil =>
    rintro (_ | fuel) _ <;> rfl
  | cons hk _ ih =>
    rintro (_ | fuel) hfuel
    · cases hfuel
    · rw [List.map_cons, List.map_cons, Forest.walkFrom, ih (Nat.le_of_succ_le_succ hfuel),
        List.map_append, hk.nodes]
      rfl

/-- A path that the walk comes by was on the stack, or it fills a slot of its parent and has one of
the paths on the stack above it. -/
theorem place (ht : d.Tour stack found) (h : d.Keyed) : ∀ q ∈ found, q ∈ stack ∨
    (∃ r i, d.Fills q r i) ∧ ∃ p ∈ stack, p ∈ d.ancestors q := by
  induction ht with
  | nil => simp
  | @cons p below rest found hk _ ih =>
    intro q hq
    rcases List.mem_cons.1 hq with rfl | hq
    · exact .inl List.mem_cons_self
    rcases ih q hq with hstack | ⟨hfills, r, hr, hup⟩
    · rcases List.mem_append.1 hstack with hq | hq
      · obtain ⟨i, hi⟩ := hk.fills h hq
        exact .inr ⟨⟨p, i, hi⟩, p, List.mem_cons_self,
          h.parent_mem_ancestors hi.parent List.mem_cons_self⟩
      · exact .inl (List.mem_cons_of_mem _ hq)
    · -- what has a child path of `p` above it has `p` above it
      refine .inr ⟨hfills, ?_⟩
      rcases List.mem_append.1 hr with hr | hr
      · obtain ⟨i, hi⟩ := hk.fills h hr
        exact ⟨p, List.mem_cons_self,
          h.parent_mem_ancestors hi.parent (List.mem_cons_of_mem _ hup)⟩
      · exact ⟨r, List.mem_cons_of_mem _ hr, hup⟩

end Tour

end Document

namespace Edit

open Document

theorem childPaths_known {d : Document} (h : d.Keyed) {p : Nat} (hp : p < d.paths.size) :
    ∃ below d', perform (childPaths p) d = (.ok below, d') ∧ d'.Known p below := by
  obtain ⟨below, d', hbelow, hlen, hfound⟩ := childPaths_found h hp
  have hview := viewed_childPaths h hp
  rw [hbelow] at hview
  have hsame := hview.seen.nodeAt hp
  exact ⟨below, d', hbelow, by rw [hsame, hlen], fun i q hq => (hfound i q hq).1,
    fun i q hq => by rw [hsame]; exact (hfound i q hq).2⟩

/-- A walk that its fuel is enough for leaves a document where it is a tour. -/
theorem walkFrom_tours {depth : Nat} : ∀ (fuel : Nat) (stack : List PathId) {d : Document},
    d.Keyed → (∀ p ∈ stack, p < d.paths.size) →
    d.forest.Walkable depth fuel (stack.map fun p => (d.path p).node) →
    ∃ found d', perform (walkFrom fuel stack) d = (.ok found, d') ∧ d'.Tour stack found ∧
      found.length ≤ fuel
  | 0, [], d, _, _, _ | _ + 1, [], d, _, _, _ => ⟨[], d, rfl, .nil, Nat.zero_le _⟩
  | 0, p :: rest, d, _, _, hw => by
    obtain ⟨_, hfuel, -⟩ := hw.cons
    omega
  | fuel + 1, p :: rest, d, h, hin, hw => by
    obtain ⟨hp, hrest⟩ := List.forall_mem_cons.1 hin
    obtain ⟨below, d₁, hbelow, hk⟩ := childPaths_known h hp
    have hview := viewed_childPaths h hp
    rw [hbelow] at hview
    have hin₁ : ∀ q ∈ below ++ rest, q < d₁.paths.size := by
      intro q hq
      rcases List.mem_append.1 hq with hq | hq
      · exact hview.found below rfl q hq
      · exact Nat.lt_of_lt_of_le (hrest q hq) hview.seen.size
    have hw₁ : d₁.forest.Walkable depth fuel ((below ++ rest).map fun q => (d₁.path q).node) := by
      obtain ⟨less, hfuel, hless⟩ := hw.cons
      cases hfuel
      have hnodes : (rest.map fun q => (d₁.path q).node) = rest.map fun q => (d.path q).node :=
        List.map_congr_left fun q hq => hview.seen.node q (hrest q hq)
      rw [List.map_append, hk.nodes, hnodes, hview.seen.nodeAt hp, hview.seen.forest]
      exact hless
    obtain ⟨found, d₂, hfound, htour, hlen⟩ := walkFrom_tours fuel _ hview.keyed hin₁ hw₁
    have hview₂ := viewed_walkFrom fuel _ hview.keyed hin₁
    rw [hfound] at hview₂
    refine ⟨p :: found, d₂, ?_, .cons ?_ htour, Nat.succ_le_succ hlen⟩
    · rw [walkFrom, perform_bind_of_ok hbelow, perform_bind_of_ok hfound]
      rfl
    · exact hk.seen hview.keyed (Nat.lt_of_lt_of_le hp hview.seen.size) hview₂.seen

end Edit

/-! ## Documents as they come about -/

/-- A walk over paths comes by the nodes of the walk over nodes, which is the pre-order of the tree,
a shared node as often as it is held. It does so whatever the caches hold, and it changes no node.
Every path that it finds but the first fills a slot of its parent and has the first above it, and
walking again finds the same paths. -/
theorem walk_mirrors_nodes {d : Document} (hd : d.Made) {p : Nat} (hp : p < d.paths.size)
    (hacyclic : d.forest.Acyclic (d.path p).node) :
    (∀ n, d.forest.Below (d.path p).node n →
      d.forest.walk n = n :: (d.forest.node n).children.flatMap d.forest.walk) ∧
    ∃ found d', perform (Edit.walk p) d = (.ok found, d') ∧ found.head? = some p ∧
      (found.map fun q => (d'.path q).node) = d.forest.walk (d.path p).node ∧
      (∀ q ∈ found, q ≠ p → (∃ (r : PathId) (i : Nat), (d'.path q).parent = some r ∧
        (d'.path q).slot = some (i : Int) ∧
        (d'.nodeAt r).children[i]? = some (d'.path q).node) ∧ p ∈ d'.ancestors q) ∧
      d'.forest = d.forest ∧ perform (Edit.walk p) d' = (.ok found, d') := by
  refine ⟨fun n hn => Forest.walk_eq (hacyclic.below hn), ?_⟩
  have hin : ∀ q ∈ [p], q < d.paths.size := by simpa using hp
  obtain ⟨found, d', hfound, htour, hlen⟩ :=
    Edit.walkFrom_tours d.forest.budget [p] hd.keyed hin hacyclic.walkable
  have hview := Edit.viewed_walkFrom d.forest.budget [p] hd.keyed hin
  rw [hfound] at hview
  have hnodes := htour.nodes hlen
  rw [hview.seen.forest, List.map_singleton, hview.seen.node p hp] at hnodes
  refine ⟨found, d', ?_, ?_, hnodes, fun q hq hne => ?_, hview.seen.forest, ?_⟩
  · unfold Edit.walk
    rw [perform_bind_of_ok (perform_get d), hfound]
  · cases htour with
    | cons => rfl
  · rcases htour.place hview.keyed q hq with hstack | ⟨⟨r, i, hi⟩, t, ht, hup⟩
    · exact absurd (List.mem_singleton.1 hstack) hne
    · rw [List.mem_singleton.1 ht] at hup
      exact ⟨⟨r, i, hi.parent, hi.slot, hi.held⟩, hup⟩
  · unfold Edit.walk
    rw [perform_bind_of_ok (perform_get d'), hview.seen.forest]
    exact htour.walkFrom_eq hview.keyed hlen

/-- A pair of leaves that is held twice, with a path to every place. -/
def pairTwice : Document :=
  (Act.walk 0).after (perform (Edit.addPath 3 none none) ⟨⟨#[.leaf "a" "1" true,
    .leaf "b" "2" true, .branch "pair" [0, 1] [none, none],
    .branch "row" [2, 2] [none, none]]⟩, #[]⟩).2

/-- The pair has the first leaf twice now, and no path is told. -/
def pairStale : Document :=
  { pairTwice with
    forest := pairTwice.forest.modify 2 fun x => { x with children := [0, 0, 1] } }

theorem walk_mirrors_nodes_stale : pairStale.Made ∧ pairStale.forest.Acyclic 3 ∧
    (pairStale.path 1).cache = [(0, 3), (1, 4)] ∧
    ∃ d', perform (Edit.walk 0) pairStale = (.ok [0, 1, 3, 7, 8, 2, 5, 9, 10], d') ∧
      ([0, 1, 3, 7, 8, 2, 5, 9, 10].map fun q => (d'.path q).node) = [3, 2, 0, 0, 1, 2, 0, 0, 1] ∧
      0 ∈ d'.ancestors 10 ∧
      perform (Edit.walk 0) d' = (.ok [0, 1, 3, 7, 8, 2, 5, 9, 10], d') := by
  have hmade : pairStale.Made :=
    .nodes _ (.act (.walk 0) (.path 3 none none (.start _) (by simp)) (by rintro _ ⟨⟩; decide))
  have hacyclic : pairStale.forest.Acyclic 3 :=
    Forest.Within.acyclic (k := 3) (by decide +kernel)
  obtain ⟨-, found, d', hfound, -, hnodes, hplaces, -, hagain⟩ :=
    walk_mirrors_nodes hmade (p := 0) (by decide +kernel) hacyclic
  have hpaths : (perform (Edit.walk 0) pairStale).1.toOption = some [0, 1, 3, 7, 8, 2, 5, 9, 10] := by
    decide +kernel
  rw [hfound] at hpaths
  cases hpaths
  exact ⟨hmade, hacyclic, by decide +kernel, d', hfound, hnodes.trans (by decide +kernel),
    (hplaces 10 (by decide) (by decide)).2, hagain⟩

end Retouch
