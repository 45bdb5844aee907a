import Retouch.Proofs.Histories
import Retouch.Proofs.Spelling
import Retouch.Proofs.Standing

/-!
# Changes are noticed exactly

A snapshot holds the text and the child list of one node. Together the snapshots of a parse tell
whether anything below a node differs from the parse: whatever was done since, a node of the parse
is pristine if and only if all nodes that the parser put below it have the text and the children
that the parser gave them (`isPristine_iff_same`). Edits may have undone each other, and the forest
may have cycles by now: the search for a modified node follows the tree of the parse up to the first
difference.
-/

namespace Retouch

/-- Every node that lies below `n` in `g` has the same text and children in `f`. -/
def Forest.SameBelow (g f : Forest) (n : NodeId) : Prop :=
  ∀ m, g.Below n m →
    (f.node m).text = (g.node m).text ∧ (f.node m).children = (g.node m).children

/-- A node that remembers how another one was just parsed is unmodified if it looks the same. -/
theorem Node.isModified_iff {x y : Node} (hm : x.memory = y.memory)
    (hs : y.snapshot = some ⟨y.text, y.children⟩) (hsp : y.span.isSome = true)
    (hso : y.source.isSome = true) :
    x.isModified = false ↔ x.text = y.text ∧ x.children = y.children := by
  simp only [memory, Prod.mk.injEq] at hm
  obtain ⟨hspan, hsource, hsnapshot⟩ := hm
  unfold isModified
  rw [hsnapshot, hs, hspan, hsource]
  simp [hsp, hso]

namespace SyntaxTree

variable {f g : Forest}

/-- A search from the roots of planted trees that meets no modified node has met all nodes of the
trees: up to a modified node, it finds the child lists of the parse. -/
theorem ThroughoutAll.unmodified : ∀ {ts : List SyntaxTree} {n : Nat} (fuel : Nat)
    (rest : List NodeId), ThroughoutAll (Branches g) ts n →
    (∀ m, n ≤ m → m < n + countAll ts → (f.node m).isModified = false →
      (f.node m).children = (g.node m).children) →
    f.pristineFrom (fuel + countAll ts) (rootIds n ts ++ rest) = true →
    (∀ m, n ≤ m → m < n + countAll ts → (f.node m).isModified = false) ∧
      f.pristineFrom fuel rest = true
  | [], n, fuel, rest, _, _, hp => by
    refine ⟨fun m h1 h2 => ?_, by simpa [rootIds, countAll] using hp⟩
    simp only [countAll] at h2
    omega
  | t :: ts, n, fuel, rest, h, hc, hp => by
    have ht := count_eq t
    simp only [countAll] at hc
    rw [show fuel + countAll (t :: ts) = (fuel + countAll ts) + countAll t.children + 1 by
      simp only [countAll]; omega] at hp
    simp only [rootIds, List.cons_append, Forest.pristineFrom] at hp
    split_ifs at hp with hmod
    simp only [Bool.not_eq_true] at hmod
    -- as long as nothing is modified, the search goes on with the children that the parse gave
    rw [hc n (by omega) (by omega) hmod, h.1.here] at hp
    obtain ⟨hbelow, hp⟩ := ThroughoutAll.unmodified _ _ h.1.below
      (fun m h1 h2 => hc m (by omega) (by omega)) hp
    obtain ⟨hbehind, hp⟩ := ThroughoutAll.unmodified _ _ h.2
      (fun m h1 h2 => hc m (by omega) (by omega)) hp
    refine ⟨fun m h1 h2 => ?_, hp⟩
    simp only [countAll] at h2
    by_cases hm : m = n
    · rw [hm]
      exact hmod
    by_cases hlt : m < n + t.count
    · exact hbelow m (by omega) (by omega)
    · exact hbehind m (by omega) (by omega)
termination_by ts => countAll ts
decreasing_by
  all_goals
    simp only [countAll]
    omega

namespace Rooted

variable {source : Source} {t : SyntaxTree} {f₀ : Forest} {root : Nat}

/-- A node of a parse is unmodified if it has the text and the children of the parse. -/
theorem isModified_iff (h : Rooted source t f₀ g root) (hr : g.Remembers f) {m : Nat}
    (hm : g.Below root m) : (f.node m).isModified = false ↔
      (f.node m).text = (g.node m).text ∧ (f.node m).children = (g.node m).children := by
  obtain ⟨h1, h2⟩ := h.branches.below_iff.1 hm
  obtain ⟨t', text, span, hn⟩ := h.node_at h1 h2
  have hlt : m < g.size := h.isTree.inRange m hm
  exact Node.isModified_iff (hr.memory m hlt) (by simp [hn, grown]) (by simp [hn])
    (by simp [hn, grown])

/-- Below a node of the parse where nothing differs from the parse there is nothing else, and
nothing there was modified. -/
theorem untouched_of_same (h : Rooted source t f₀ g root) (hr : g.Remembers f) {n : Nat}
    (hn : g.Below root n) (hs : g.SameBelow f n) : f.Acyclic n ∧ f.Untouched n := by
  have hc := fun m hm => (hs m hm).2
  refine ⟨Forest.acyclic_of_children (h.branches.acyclic.below hn) hc, fun m hm => ?_⟩
  have hm := Forest.below_of_children hc hm
  exact (h.isModified_iff hr (hn.trans hm)).2 (hs m hm)

theorem same_of_isPristine (h : Rooted source t f₀ g root) (hr : g.Remembers f) {n : Nat}
    (hn : g.Below root n) (hp : f.isPristine n = true) : g.SameBelow f n := by
  obtain ⟨h1, h2⟩ := h.branches.below_iff.1 hn
  obtain ⟨t', ht', hle⟩ := h.branches.at h1 h2
  obtain ⟨hall, hcount⟩ := ht'.all
  -- nodes are never taken from the forest, so its budget suffices for the tree of the parse
  have hsize : t'.count ≤ f.size := by
    have := hr.size
    have := h.size
    have := h.root_eq
    omega
  have hbudget : f.size + 2 < Nat.pow (f.width + 3) (f.size + 2) := Nat.lt_pow_self (by omega)
  have hfuel : f.budget = f.budget - countAll [t'] + countAll [t'] := by
    unfold Forest.budget
    omega
  unfold Forest.isPristine at hp
  rw [hfuel] at hp
  obtain ⟨hun, -⟩ := hall.unmodified (f := f) _ [] (fun m hm1 hm2 hmod => by
    have hm := ht'.below_iff.2 ⟨hm1, by omega⟩
    exact ((h.isModified_iff hr (hn.trans hm)).1 hmod).2) hp
  intro m hm
  obtain ⟨hm1, hm2⟩ := ht'.below_iff.1 hm
  exact (h.isModified_iff hr (hn.trans hm)).1 (hun m hm1 (by omega))

end Rooted

end SyntaxTree

/-- Whatever is done after a parse, a node of the parse is pristine if and only if nothing below it
differs from the parse. The printer finds the same, from whichever root, and writes the node as the
slice that the parser gave it in this case and as a touched node in the other. -/
theorem isPristine_iff_same {η : Type} {fits : String → SyntaxTree → Prop}
    {w w' w'' : Workspace η} {parser : ParserId} {text : String} {root : NodeId}
    (hparse : perform (Work.parse parser text) w = (.ok root, w')) (hwork : Worked fits w' w'') :
    let g := w'.document.forest
    let f := w''.document.forest
    ∀ n, g.Below root n →
      (f.isPristine n = true ↔ g.SameBelow f n) ∧
      (g.SameBelow f n → ∀ (p : Printer) (base : Source),
        p.print f n (some base) = g.verbatim n) ∧
      ∀ r, f.Acyclic r → f.Below r n →
        ((f.pristineMap r).getD n false = true ↔ g.SameBelow f n) ∧
        ∀ p : Printer,
          (g.SameBelow f n → p.expand f (fun m => (f.pristineMap r).getD m false) n =
            (g.verbatim n).map fun s => [.text s]) ∧
          (¬ g.SameBelow f n → p.expand f (fun m => (f.pristineMap r).getD m false) n =
            p.expand f (fun _ => false) n) := by
  intro g f n hn
  obtain ⟨stamp, parsed, g₀, -, hplant, hd⟩ := Work.parse_eq_ok hparse
  obtain rfl : g₀ = g := by rw [show g = w'.document.forest from rfl, hd]
  have hrooted := SyntaxTree.rooted_of_plant hplant
  have hr : g.Remembers f := hwork.remembers
  have hiff : f.isPristine n = true ↔ g.SameBelow f n := by
    refine ⟨hrooted.same_of_isPristine hr hn, fun hs => ?_⟩
    obtain ⟨hac, hu⟩ := hrooted.untouched_of_same hr hn hs
    exact (Forest.isPristine_iff hac).2 hu
  have hverbatim : f.verbatim n = g.verbatim n := by
    have hlt := hrooted.isTree.inRange n hn
    unfold Forest.verbatim
    rw [hr.span hlt, hr.source hlt]
  refine ⟨hiff, fun hs p base => ?_, fun r hac hb => ?_⟩
  · obtain ⟨hac, hu⟩ := hrooted.untouched_of_same hr hn hs
    rw [p.print_some hac, Printer.textOf_untouched hac hu, hverbatim]
  · have hmap : (f.pristineMap r).getD n false = true ↔ g.SameBelow f n := by
      rw [Forest.getD_pristineMap hac hb]
      exact hiff
    refine ⟨hmap, fun p => ⟨fun hs => ?_, fun hs => ?_⟩⟩
    · rw [← hverbatim]
      exact Printer.expand_pristine (hmap.2 hs)
    · have hfalse : (f.pristineMap r).getD n false = false := by
        rw [← Bool.not_eq_true, hmap]
        exact hs
      simp [Printer.expand, hfalse]

/-- The first name of a pair loses its text, and the second stands on both sides of it. -/
def pairShuffled : Workspace Unit :=
  (perform (Work.edit (Edit.setChildren 0 [2, 1, 2])) (perform (Work.edit
    (Edit.modifyNode 1 fun x => { x with text := none })) pairParsed).2).2

/-- Both is undone. -/
def pairRestored : Workspace Unit :=
  (perform (Work.edit (Edit.modifyNode 1 fun x => { x with text := some "a" }))
    (perform (Work.edit (Edit.eraseChild 0 (-3))) pairShuffled).2).2

theorem worked_pairShuffled : Worked (fun _ _ => True) pairParsed pairShuffled :=
  .edit (.edit .start (.modifyNode 1 fun _ => rfl)) (.setChildren 0 [2, 1, 2])

theorem worked_pairRestored : Worked (fun _ _ => True) pairParsed pairRestored :=
  .edit (.edit worked_pairShuffled (.eraseChild 0 (-3))) (.modifyNode 1 fun _ => rfl)

theorem isPristine_iff_same_pair :
    ¬ pairParsed.document.forest.SameBelow pairShuffled.document.forest 0 ∧
      pairParsed.document.forest.SameBelow pairShuffled.document.forest 2 ∧
      pairParsed.document.forest.SameBelow pairRestored.document.forest 0 ∧
      (⟨"_"⟩ : Printer).print pairRestored.document.forest 0 (some default) = .ok "a é" := by
  have hshuffled := isPristine_iff_same parse_pair worked_pairShuffled
  have hrestored := isPristine_iff_same parse_pair worked_pairRestored
  have hchild : pairParsed.document.forest.Below 0 2 := .child (.refl 0) (by decide +kernel)
  have hsame := (hrestored 0 (.refl 0)).1.1 (by decide +kernel)
  refine ⟨fun h => ?_, (hshuffled 2 hchild).1.1 (by decide +kernel), hsame, ?_⟩
  · have := (hshuffled 0 (.refl 0)).1.2 h
    revert this
    decide +kernel
  · rw [(hrestored 0 (.refl 0)).2.1 hsame]
    exact eq_ok_of_toOption (by decide +kernel)

end Retouch
