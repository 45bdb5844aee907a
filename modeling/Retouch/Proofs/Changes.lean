import Retouch.Proofs.Rebuilding
import Retouch.Proofs.Standing

/-!
# Changes of a parse, one for one

A change gives a leaf another text or puts one node in the place of another, so every parsed node
keeps the number of its children. If no changed node lies below another, then the root is written as
the source with the span of each changed node given over to what was put there
(`Carried.overlaid_root`). The induction runs over the planted trees: the patches of a tree are
those of the stretch of numbers that it takes up.
-/

namespace Retouch

/-- What is done to one node of a parse. -/
inductive Change where
  | text (u : String)
  | node (m : NodeId)

namespace Change

/-- What stands in the place of `c`. -/
def target (changes : List (NodeId × Change)) (c : NodeId) : NodeId :=
  match Assoc.get? changes c with
  | some (.node m) => m
  | _ => c

/-- The parsed node `x` after the changes, where `n` is its identity. -/
def apply (changes : List (NodeId × Change)) (n : NodeId) (x : Node) : Node :=
  { x with
    text := match Assoc.get? changes n with
      | some (.text u) => some u
      | _ => x.text
    children := x.children.map (target changes) }

/-- What a change is written as, over a base text. -/
def print (p : Printer) (f : Forest) (base : Option Source) : Change → Except Fault String
  | text u => .ok u
  | node m => p.print f m base

end Change

/-- Bytes for the span of a parsed node. -/
def Node.patch (x : Node) (bytes : ByteArray) : Patch :=
  ⟨(x.span.getD (0, 0)).1.toNat, (x.span.getD (0, 0)).2.toNat, bytes⟩

/-- The patches for the changed nodes among some, in their order. -/
def patchesFor (g : Forest) (changes : List (NodeId × Change)) (texts : NodeId → String)
    (nodes : List NodeId) : List Patch :=
  (nodes.filter fun n => (Assoc.get? changes n).isSome).map fun n =>
    (g.node n).patch (texts n).toUTF8

/-- In the forest `f` the tree that stands below `root` in `g` has undergone changes, none within
another, and each is written as the text for its node. -/
structure Carried (p : Printer) (g f : Forest) (root : NodeId) (changes : List (NodeId × Change))
    (texts : NodeId → String) : Prop where
  node : ∀ m, g.Below root m → f.node m = Change.apply changes m (g.node m)
  leaf : ∀ m u, Assoc.get? changes m = some (.text u) → (g.node m).children = [] ∧ texts m = u
  fresh : ∀ m m', Assoc.get? changes m = some (.node m') →
    f.Acyclic m' ∧ p.textOf f m' = .ok (texts m)
  apart : ∀ m m', (Assoc.get? changes m).isSome → (Assoc.get? changes m').isSome →
    g.Below m m' → m = m'

namespace Carried

variable {p : Printer} {text : String} {stamp : Nat} {g f : Forest} {root : Nat}
  {changes : List (NodeId × Change)} {texts : NodeId → String}

/-- The patches of each of several trees whose nodes are numbered from `n` on. -/
def patchesOf (g : Forest) (changes : List (NodeId × Change)) (texts : NodeId → String) :
    Nat → List SyntaxTree → List (List Patch)
  | _, [] => []
  | n, t :: ts =>
    patchesFor g changes texts (List.range' n t.count) ::
      patchesOf g changes texts (n + t.count) ts

theorem length_patchesOf : ∀ (n : Nat) (ts : List SyntaxTree),
    ts.length = (patchesOf g changes texts n ts).length
  | _, [] => rfl
  | n, t :: ts => congrArg (· + 1) (length_patchesOf (n + t.count) ts)

theorem patchesFor_append (ns ns' : List NodeId) : patchesFor g changes texts (ns ++ ns') =
    patchesFor g changes texts ns ++ patchesFor g changes texts ns' := by
  simp [patchesFor]

theorem flatten_patchesOf : ∀ (n : Nat) (ts : List SyntaxTree),
    (patchesOf g changes texts n ts).flatten =
      patchesFor g changes texts (List.range' n (SyntaxTree.countAll ts))
  | _, [] => rfl
  | n, t :: ts => by
    rw [patchesOf, List.flatten_cons, flatten_patchesOf, ← patchesFor_append,
      List.range'_append_1]
    rfl

/-- A changed node hides what lies below it. -/
theorem patchesFor_changed (h : Carried p g f root changes texts) {t : SyntaxTree} {n : Nat}
    (ht : t.Throughout (SyntaxTree.Branches g) n) (hn : (Assoc.get? changes n).isSome) :
    patchesFor g changes texts (List.range' n t.count) = [(g.node n).patch (texts n).toUTF8] := by
  have hrest : (List.range' (n + 1) (SyntaxTree.countAll t.children)).filter
      (fun m => (Assoc.get? changes m).isSome) = [] := by
    refine List.filter_eq_nil_iff.2 fun m hm hc => ?_
    have hrange := List.mem_range'_1.1 hm
    have hcount := SyntaxTree.count_eq t
    have hnm : n = m := h.apart n m hn hc (ht.below_iff.2 (by omega))
    omega
  rw [SyntaxTree.count_eq, List.range'_succ, patchesFor, List.filter_cons, if_pos hn, hrest]
  rfl

theorem patchesFor_unchanged {t : SyntaxTree} {n : Nat} (hn : Assoc.get? changes n = none) :
    patchesFor g changes texts (List.range' n t.count) =
      (patchesOf g changes texts (n + 1) t.children).flatten := by
  rw [flatten_patchesOf, SyntaxTree.count_eq, List.range'_succ, patchesFor,
    List.filter_cons, if_neg (by simp [hn])]
  rfl

theorem target_of_none {n : NodeId} (hn : Assoc.get? changes n = none) :
    Change.target changes n = n := by
  simp [Change.target, hn]

theorem marks (h : Carried p g f root changes texts) {source : Source} {t : SyntaxTree} {n : Nat}
    (hs : t.Stands source g n) (hn : g.Below root n) : Marks source f n t := by
  obtain ⟨u, -, hg⟩ := hs
  unfold Marks
  rw [h.node n hn, hg]
  exact ⟨rfl, rfl⟩

/-- A node put in the place of a tree is all that is left of it. -/
theorem overlaid_fresh (h : Carried p g f root changes texts) {t : SyntaxTree} {n m : Nat}
    {source : Source} (hs : t.Stands source g n) (ht : t.WellFormed text)
    (hb : t.Throughout (SyntaxTree.Branches g) n)
    (hn : Assoc.get? changes n = some (.node m)) :
    Overlaid p text f (Change.target changes n) t
      (patchesFor g changes texts (List.range' n t.count)) := by
  obtain ⟨u, -, hg⟩ := hs
  obtain ⟨hac, hw⟩ := h.fresh n m hn
  rw [h.patchesFor_changed hb (by simp [hn]), show Change.target changes n = m by
    simp [Change.target, hn], hg]
  refine ⟨⟨le_rfl, ht.le, le_rfl⟩, hac, texts n, hw, ?_⟩
  exact (patched_whole t.start t.stop _).symm

/-- A leaf, changed or not, is written as its text. -/
theorem overlaid_leaf (h : Carried p g f root changes texts) {t : SyntaxTree} {n : Nat}
    (hs : t.Stands (.ofText stamp text) g n) (ht : t.WellFormed text) (hr : g.Below root n)
    (hb : t.Throughout (SyntaxTree.Branches g) n) (hc : t.children = [])
    (hn : ∀ m, Assoc.get? changes n ≠ some (.node m)) :
    Overlaid p text f (Change.target changes n) t
      (patchesFor g changes texts (List.range' n t.count)) := by
  have hmarks := h.marks hs hr
  obtain ⟨v, hv, hbytes, hg⟩ := hs.leaf ht hc
  have hnode := h.node n hr
  have hac : f.Acyclic n := .of_children fun c hm => by
    rw [hnode, hg] at hm
    simp [Change.apply, SyntaxTree.grown, hc, SyntaxTree.rootIds] at hm
  have hsnap : (f.node n).snapshot = some ⟨some v, SyntaxTree.rootIds (n + 1) t.children⟩ := by
    rw [hnode, hg]
    rfl
  rcases hch : Assoc.get? changes n with _ | ⟨w⟩ | ⟨m⟩
  · have htext : (f.node n).text = some v := by
      rw [hnode, hg]
      simp [Change.apply, hch, SyntaxTree.grown]
    rw [patchesFor_unchanged hch, hc, target_of_none hch]
    exact ⟨ht.le, hac, v, textOf_leaf p hmarks htext hsnap hv hac, hbytes⟩
  · have htext : (f.node n).text = some w := by
      rw [hnode, hg]
      simp [Change.apply, hch]
    rw [h.patchesFor_changed hb (by simp [hch]), (h.leaf n w hch).2,
      show Change.target changes n = n by simp [Change.target, hch], hg]
    refine ⟨⟨le_rfl, ht.le, le_rfl⟩, hac, w, textOf_leaf p hmarks htext hsnap hv hac, ?_⟩
    exact (patched_whole t.start t.stop _).symm
  · exact absurd hch (hn m)

/-- An inner node that stays is overlaid with the patches of its children. -/
theorem overlaid_inner (h : Carried p g f root changes texts) {t : SyntaxTree} {n : Nat}
    (hs : t.Stands (.ofText stamp text) g n) (ht : t.WellFormed text) (hr : g.Below root n)
    (hc : t.children ≠ []) (hn : Assoc.get? changes n = none)
    (hm : List.Forall₂ (Marks (.ofText stamp text) f) (SyntaxTree.rootIds (n + 1) t.children)
      t.children)
    (hbelow : List.Forall₂ (fun c e => Overlaid p text f (Change.target changes c) e.1 e.2)
      (SyntaxTree.rootIds (n + 1) t.children)
      (t.children.zip (patchesOf g changes texts (n + 1) t.children))) :
    Overlaid p text f n t (patchesFor g changes texts (List.range' n t.count)) := by
  have hmarks := h.marks hs hr
  have hnode := h.node n hr
  rw [hs.inner hc] at hnode
  rw [patchesFor_unchanged hn]
  refine Overlaid.of_children p ht hc hmarks ?_ ?_ hm (length_patchesOf _ _) ?_
  · rw [hnode]
    simp [Change.apply, hn, SyntaxTree.grown]
  · rw [hnode]
    rfl
  · rw [hnode]
    exact List.forall₂_map_left_iff.2 hbelow

/-- Every tree of the parse is overlaid with the patches of its numbers. -/
theorem overlaid_all (h : Carried p g f root changes texts) : ∀ {ts : List SyntaxTree}
    {n a b : Nat}, SyntaxTree.ThroughoutAll (SyntaxTree.Stands (.ofText stamp text) g) ts n →
    (∀ m, n ≤ m → m < n + SyntaxTree.countAll ts → g.Below root m) →
    SyntaxTree.WellPlaced text a b ts →
    List.Forall₂ (Marks (.ofText stamp text) f) (SyntaxTree.rootIds n ts) ts ∧
    List.Forall₂ (fun c e => Overlaid p text f (Change.target changes c) e.1 e.2)
      (SyntaxTree.rootIds n ts) (ts.zip (patchesOf g changes texts n ts))
  | [], _, _, _, _, _, _ => ⟨.nil, .nil⟩
  | t :: ts, n, a, b, hs, hin, ⟨_, h2, h3⟩ => by
    have ht := SyntaxTree.count_eq t
    simp only [SyntaxTree.countAll] at hin
    have hr := hin n le_rfl (by omega)
    have hb : t.Throughout (SyntaxTree.Branches g) n := hs.1.imp fun _ _ _ _ hs => hs.branches
    obtain ⟨hm, hbelow⟩ := overlaid_all h hs.1.below (fun m h1 h2 => hin m (by omega) (by omega))
      (SyntaxTree.wellFormed_iff.1 h2).2.2
    obtain ⟨hms, hrest⟩ := overlaid_all h hs.2 (fun m h1 h2 => hin m (by omega) (by omega)) h3
    refine ⟨.cons (h.marks hs.1.here hr) hms, .cons ?_ hrest⟩
    by_cases hn : ∃ m, Assoc.get? changes n = some (.node m)
    · obtain ⟨m, hn⟩ := hn
      exact h.overlaid_fresh hs.1.here h2 hb hn
    by_cases hc : t.children = []
    · exact h.overlaid_leaf hs.1.here h2 hr hb hc fun m hm => hn ⟨m, hm⟩
    · -- only leaves get another text, so an inner node that stays is not changed at all
      have hnone : Assoc.get? changes n = none := by
        rcases hch : Assoc.get? changes n with _ | ⟨u⟩ | ⟨m⟩
        · rfl
        · have hleaf := congrArg List.length (h.leaf n u hch).1
          rw [hb.here, SyntaxTree.length_rootIds, List.length_nil] at hleaf
          exact absurd (List.length_eq_zero_iff.1 hleaf) hc
        · exact absurd ⟨m, hch⟩ hn
      rw [target_of_none hnone]
      exact h.overlaid_inner hs.1.here h2 hr hc hnone hm hbelow
termination_by ts => SyntaxTree.countAll ts
decreasing_by
  all_goals
    simp only [SyntaxTree.countAll]
    omega

/-- The root, which has the span of the whole source, is overlaid with the patches of all changed
nodes, in the order of a walk. -/
theorem overlaid_root (h : Carried p g f root changes texts) {t : SyntaxTree} {f₀ : Forest}
    (hg : t.Rooted (.ofText stamp text) f₀ g root) (ht : t.WellFormed text)
    (hroot : Assoc.get? changes root = none) :
    Overlaid p text f root (t.spanning text.toUTF8.size)
      (patchesFor g changes texts (g.walk root)) := by
  have hcount := SyntaxTree.count_eq t
  have hr : g.Below root root := .refl root
  rw [hg.branches.walk_eq (by rw [hg.root_eq, hg.size])]
  by_cases hc : t.children = []
  · have hnode : f.node root = { g.node root with fields := (g.node root).fields } := by
      obtain ⟨u, -, htop⟩ := hg.top
      rw [h.node root hr, htop]
      simp [Change.apply, hroot, SyntaxTree.grown, hc, SyntaxTree.rootIds]
    rw [patchesFor_unchanged hroot, hc]
    exact .of_bare_root p hg ht hc hnode
  · have hin : ∀ m, root + 1 ≤ m → m < root + 1 + SyntaxTree.countAll t.children →
        g.Below root m := fun m h1 h2 => hg.branches.below_iff.2 (by omega)
    have hplaced := (SyntaxTree.wellFormed_iff.1 ht.spanning).2.2
    rw [SyntaxTree.children_spanning] at hplaced
    obtain ⟨hm, hbelow⟩ := h.overlaid_all hg.trees hin hplaced
    have := h.overlaid_inner (hg.stands hc) ht.spanning hr
      (by rwa [SyntaxTree.children_spanning]) hroot
    simp only [SyntaxTree.children_spanning, SyntaxTree.count_spanning] at this
    exact this hm hbelow

end Carried

end Retouch
