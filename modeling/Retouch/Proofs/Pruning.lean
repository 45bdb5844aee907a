import Retouch.Proofs.Cuts
import Retouch.Proofs.LiveSlots
import Retouch.Proofs.Parsing

/-!
# Pruning only deletes

All paths of a parse are taken by one walk, and some of them are pruned one after the other. A path
that was pruned becomes a root of its own, so the paths below it stay attached and can still be
pruned (`Underway.prune`). All along, the nodes of the parse have lost exactly the children pruned
so far. So the text that is left depends on the paths alone and not on their order: it is the source
without what goes with each pruned child of a node that stays.
-/

namespace Retouch

/-- Whether one of the paths stands on the node. -/
def Document.standsOn (d : Document) (qs : List PathId) (n : NodeId) : Bool :=
  qs.any fun q => (d.path q).node == n

theorem filter_eq_splice {items : List NodeId} {i n : Nat} (hi : items[i]? = some n)
    (hitems : items.Nodup) :
    items.take i ++ [] ++ items.drop (i + 1) = items.filter fun k => !(n == k) := by
  obtain ⟨htake, hdrop⟩ := Slot.not_mem_take_drop hi hitems
  have hkeep : ∀ {l : List NodeId}, n ∉ l → l.filter (fun k => !(n == k)) = l := by
    intro l hn
    refine List.filter_eq_self.2 fun k hk => ?_
    rw [Bool.not_eq_true', beq_eq_false_iff_ne]
    rintro rfl
    exact hn hk
  nth_rewrite 3 [← Slot.take_append_cons_drop hi]
  rw [List.append_nil, List.filter_append, List.filter_cons, if_neg (by simp), hkeep htake,
    hkeep hdrop]

namespace Thinned

variable {g f : Forest} {root : NodeId} {gone : NodeId → Bool}

theorem edge (h : Thinned g f root gone) {x c : NodeId} (hx : g.Below root x)
    (hc : c ∈ (f.node x).children) : c ∈ (g.node x).children ∧ gone c = false := by
  obtain ⟨fields, -, hf⟩ := h.node x hx
  rw [hf, List.mem_filter] at hc
  simpa using hc

theorem below (h : Thinned g f root gone) {n x : NodeId} (hn : g.Below root n)
    (hx : f.Below n x) : g.Below root x := by
  induction hx with
  | refl => exact hn
  | tail _ hc ih => exact ih.child (h.edge ih hc).1

theorem nodup (h : Thinned g f root gone) (ht : g.IsTree root) {x : NodeId}
    (hx : g.Below root x) : (f.node x).children.Nodup := by
  obtain ⟨fields, -, hf⟩ := h.node x hx
  rw [hf]
  exact (ht.nodup x hx).filter _

/-- Below the root and what is gone, every node stands in one slot at most. -/
theorem single (h : Thinned g f root gone) (ht : g.IsTree root) {tops : List NodeId}
    (htops : ∀ t ∈ tops, g.Below root t ∧ (t = root ∨ gone t = true)) :
    Document.Single f tops fun _ => True where
  up _ _ _ _ _ _ _ := trivial
  slot t hmem t' hmem' x y c i j hx hy _ hi hj := by
    have hx := h.below (htops t hmem).1 hx
    have hy := h.below (htops t' hmem').1 hy
    cases ht.holder x y c hx hy (h.edge hx (List.mem_of_getElem? hi)).1
      (h.edge hy (List.mem_of_getElem? hj)).1
    have hlt := (List.getElem?_eq_some_iff.1 hi).1
    exact ⟨rfl, (List.getElem?_inj hlt (h.nodup ht hx)).1 (hi.trans hj.symm)⟩
  top t hmem t' hmem' x hx _ hc := by
    have hx := h.below (htops t hmem).1 hx
    obtain ⟨hc, hstay⟩ := h.edge hx hc
    rcases (htops t' hmem').2 with rfl | hgone
    · exact ht.root x hx hc
    · rw [hstay] at hgone
      cases hgone

/-- Taking a child out of its slot is one node gone more. -/
theorem spliced {d : Document} (h : Thinned g d.forest root gone) (ht : g.IsTree root)
    {p i n : Nat} {field : Option String} (hp : g.Below root (d.path p).node)
    (hi : (d.nodeAt p).children[i]? = some n) :
    Thinned g (d.spliceSlot p i field []).forest root fun k => n == k || gone k := by
  have hlt := (List.getElem?_eq_some_iff.1 hi).1
  refine ⟨fun m hm => ?_⟩
  obtain ⟨fields, hlen, hf⟩ := h.node m hm
  rw [Document.node_spliceSlot hlt]
  split_ifs with hmp
  · subst hmp
    have hchildren : (d.nodeAt p).children = (g.node (d.path p).node).children.filter
        fun c => !gone c := by
      unfold Document.nodeAt
      rw [hf]
    have hsplice := filter_eq_splice hi (h.nodup ht hm)
    have hfilter : (g.node (d.path p).node).children.filter (fun k => !(n == k || gone k)) =
        ((g.node (d.path p).node).children.filter fun c => !gone c).filter fun k => !(n == k) := by
      simp only [List.filter_filter, Bool.not_or]
    have hlt' : i < fields.length := by rwa [hlen, ← hchildren]
    rw [hfilter, ← hchildren, ← hsplice]
    refine ⟨fields.take i ++ [] ++ fields.drop (i + 1), ?_, ?_⟩
    · simp only [List.length_append, List.length_take, List.length_drop, List.length_nil, hlen,
        hchildren]
    · unfold Document.nodeAt
      rw [hf]
      simp only [List.length_nil, List.replicate_zero]
      rw [Slot.splice_natCast hlt']
  · have hnot : n ∉ (g.node m).children := fun hmem => by
      refine hmp (ht.holder m _ n hm hp hmem ?_)
      exact (h.edge hp (List.mem_of_getElem? hi)).1
    have hsame : (g.node m).children.filter (fun k => !(n == k || gone k)) =
        (g.node m).children.filter fun c => !gone c := by
      refine List.filter_congr fun k hk => ?_
      have hne : (n == k) = false := by
        rw [beq_eq_false_iff_ne]
        rintro rfl
        exact hnot hk
      rw [hne, Bool.false_or]
    exact ⟨fields, by rw [hsame, hlen], by rw [hsame, hf]⟩

end Thinned

/-! ## What pruning keeps -/

/-- The paths of a walk: each on a node of its own of the parse in `g`, the path `r` on the root. -/
structure Walked (g : Forest) (root : NodeId) (r : PathId) (ps : List PathId) (d : Document) :
    Prop where
  tree : g.IsTree root
  top : r ∈ ps ∧ (d.path r).node = root
  nodup : (ps.map fun q => (d.path q).node).Nodup
  below : ∀ q ∈ ps, g.Below root (d.path q).node

/-- Of the paths `ps`, which a walk took in the document `d₁`, some are done with. -/
structure Underway (g : Forest) (root : NodeId) (r : PathId) (ps : List PathId) (d₁ : Document)
    (done : List PathId) (d : Document) : Prop where
  attached : d.Attached (done ++ [r])
  live : ∀ q ∈ ps, d.Live (done ++ [r]) q
  node : ∀ x, (d.path x).node = (d₁.path x).node
  thinned : Thinned g d.forest root (d₁.standsOn done)

namespace Underway

variable {g : Forest} {root : NodeId} {r : PathId} {ps done : List PathId} {d₁ d : Document}

/-- No two live paths stand on one node. -/
theorem eq_of_node_eq (h : Underway g root r ps d₁ done d) (hw : Walked g root r ps d₁)
    (hdone : done ⊆ ps) {p q : PathId} (hp : d.Live (done ++ [r]) p)
    (hq : d.Live (done ++ [r]) q) (hn : (d.path p).node = (d.path q).node) : p = q := by
  have hroots : ∀ x ∈ done ++ [r], x ∈ ps := by
    intro x hx
    rcases List.mem_append.1 hx with hx | hx
    · exact hdone hx
    · exact List.mem_singleton.1 hx ▸ hw.top.1
  have hs : Document.Single d.forest ((done ++ [r]).map fun x => (d.path x).node)
      fun _ => True := by
    refine h.thinned.single hw.tree fun t ht => ?_
    obtain ⟨x, hx, rfl⟩ := List.mem_map.1 ht
    rw [h.node]
    refine ⟨hw.below x (hroots x hx), ?_⟩
    rcases List.mem_append.1 hx with hx | hx
    · exact .inr (List.any_eq_true.2 ⟨x, hx, beq_self_eq_true _⟩)
    · exact .inl (List.mem_singleton.1 hx ▸ hw.top.2)
  refine h.attached.eq_of_node_eq hs (fun a ha b hb hab => ?_) hp hq hn trivial
  rw [h.node, h.node] at hab
  exact List.inj_on_of_nodup_map hw.nodup (hroots a ha) (hroots b hb) hab

/-- A path that is not done with can be pruned. -/
theorem prune (h : Underway g root r ps d₁ done d) (hw : Walked g root r ps d₁)
    (hdone : done ⊆ ps) {q : PathId} (hq : q ∈ ps) (hnew : q ∉ done) (hne : q ≠ r) :
    ∃ parent d', perform (Edit.prune q) d = (.ok parent, d') ∧
      Underway g root r ps d₁ (q :: done) d' := by
  rcases h.attached.cases (h.live q hq) with hr | ⟨p, i, hp, he, hf⟩
  · rcases List.mem_append.1 hr with hr | hr
    · exact absurd hr hnew
    · exact absurd (List.mem_singleton.1 hr) hne
  have hone : ∀ y, d.Live (done ++ [r]) y → (d.path y).node = (d.path p).node → y = p :=
    fun y hy hn => h.eq_of_node_eq hw hdone hy hp hn
  -- the parent stands on a node of the parse, for it lies below a root or below one pruned before
  have hgp : g.Below root (d.path p).node := by
    obtain ⟨x, hx, hb⟩ := h.attached.below hp
    refine h.thinned.below ?_ hb
    rw [h.node]
    rcases List.mem_append.1 hx with hx | hx
    · exact hw.below x (hdone hx)
    · exact hw.below x (List.mem_singleton.1 hx ▸ hw.top.1)
  obtain ⟨field, hfield⟩ : ∃ field, (d.nodeAt p).fields[i]? = some field := by
    obtain ⟨fields, hlen, hnode⟩ := h.thinned.node _ hgp
    have hlt := (List.getElem?_eq_some_iff.1 hf.held).1
    unfold Document.nodeAt at hlt ⊢
    rw [hnode] at hlt ⊢
    exact ⟨_, List.getElem?_eq_getElem (by rw [hlen]; exact hlt)⟩
  refine ⟨some p, _, Edit.prune_ok h.attached hp he hfield, h.attached.take hp he hone,
    fun x hx => Document.live_taken h.attached hp he (h.live x hx), fun x => ?_, ?_⟩
  · rw [Document.node_taken h.attached hp he, h.node]
  · have hthin : Thinned g (d.spliceSlot p i field []).forest root
        fun k => (d.path q).node == k || d₁.standsOn done k := h.thinned.spliced hw.tree hgp hf.held
    rw [h.node] at hthin
    rw [Document.forest_detach]
    exact hthin

/-- Paths that are not done with can be pruned one after the other. -/
theorem pruneAll (hw : Walked g root r ps d₁) : ∀ {qs done : List PathId} {d : Document},
    Underway g root r ps d₁ done d → done ⊆ ps → qs.Nodup →
    (∀ q ∈ qs, q ∈ ps ∧ q ∉ done ∧ q ≠ r) →
    ∃ parents d', perform (qs.mapM Edit.prune) d = (.ok parents, d') ∧
      Underway g root r ps d₁ (qs.reverse ++ done) d'
  | [], _, d, h, _, _, _ => ⟨[], d, by simp, h⟩
  | q :: qs, done, d, h, hdone, hqs, hnew => by
    obtain ⟨hq, hqs⟩ := List.nodup_cons.1 hqs
    obtain ⟨⟨hmem, hq', hne⟩, hnew⟩ := List.forall_mem_cons.1 hnew
    obtain ⟨parent, d1, h1, hu⟩ := h.prune hw hdone hmem hq' hne
    obtain ⟨parents, d2, h2, hu⟩ := pruneAll hw hu (List.cons_subset.2 ⟨hmem, hdone⟩) hqs
      fun x hx => by
        obtain ⟨hmem, hx', hne⟩ := hnew x hx
        refine ⟨hmem, ?_, hne⟩
        rw [List.mem_cons]
        rintro (rfl | hx'')
        · exact hq hx
        · exact hx' hx''
    refine ⟨parent :: parents, d2, ?_, ?_⟩
    · rw [List.mapM_cons, perform_bind_of_ok h1, perform_bind_of_ok h2]
      rfl
    · rwa [List.reverse_cons, List.append_assoc, List.singleton_append]

end Underway

/-- A walk from a new root path on a planted tree takes a path for every node, and nothing is gone
yet. -/
theorem walked_of_rooted {source : Source} {t : SyntaxTree} {f : Forest} {root : Nat}
    {d₀ : Document} (hg : t.Rooted source f d₀.forest root) :
    ∃ ps d, perform (do Edit.walk (← Edit.addRoot root)) d₀ = (.ok ps, d) ∧
      ps.map (fun q => (d.path q).node) = List.range' root t.count ∧
      Walked d₀.forest root d₀.paths.size ps d ∧
      Underway d₀.forest root d₀.paths.size ps d [] d ∧ (d.path d₀.paths.size).parent = none := by
  have hk := Kept.start hg.isTree
  have hlive : (d₀.addRoot root).2.Live [d₀.paths.size] d₀.paths.size := .root List.mem_cons_self
  have hroot : ((d₀.addRoot root).2.path d₀.paths.size).node = root := by
    rw [Document.addRoot, Document.path_push, if_pos rfl]
  obtain ⟨ps, d, hps, hl, hlives, hnodes⟩ := Edit.walk_ok hk.attached hlive
  have hforest : d.forest = d₀.forest := hl.grown.forest
  have hnodes' : ps.map (fun q => (d.path q).node) = List.range' root t.count := by
    rw [hnodes, hroot]
    exact hg.branches.walk_eq (by rw [hg.root_eq, hg.size])
  have htop : (d.path d₀.paths.size).node = root :=
    (hl.grown.node _ (hk.attached.inRange _ hlive)).trans hroot
  have hbelow : ∀ q ∈ ps, d₀.forest.Below root (d.path q).node := by
    intro q hq
    have hmem : (d.path q).node ∈ List.range' root t.count :=
      hnodes' ▸ List.mem_map_of_mem hq
    exact hg.branches.below_iff.2 (List.mem_range'_1.1 hmem)
  have hmem : d₀.paths.size ∈ ps := by
    obtain ⟨k, hk⟩ : ∃ k, t.count = k + 1 := ⟨t.count - 1, by have := t.count_pos; omega⟩
    have hfirst : root ∈ ps.map fun q => (d.path q).node := by
      rw [hnodes', hk, List.range'_succ]
      exact List.mem_cons_self
    obtain ⟨q, hq, hqn⟩ := List.mem_map.1 hfirst
    have hkept : Kept d₀.paths.size d := Kept.looked ‹_› hl
    rwa [hkept.eq_of_node_eq (.root List.mem_cons_self) (hlives q hq) (htop.trans hqn.symm)]
  refine ⟨ps, d, ?_, hnodes', ⟨hg.isTree, ⟨hmem, htop⟩, ?_, hbelow⟩,
    ⟨hl.attached, hlives, fun _ => rfl, ⟨fun m hm => ?_⟩⟩,
    (hl.attached.root _ List.mem_cons_self).1⟩
  · exact (perform_bind_of_ok (show perform (Edit.addRoot root) d₀ =
      (.ok d₀.paths.size, (d₀.addRoot root).2) from rfl) _).trans hps
  · rw [hnodes']
    exact List.nodup_range'
  · have hall : (d₀.forest.node m).children.filter (fun c => !d.standsOn [] c) =
        (d₀.forest.node m).children := List.filter_eq_self.2 fun _ _ => rfl
    rw [hall, hforest]
    exact ⟨_, hg.length_fields hm, rfl⟩

/-- Let all paths of a parse from a well-formed tree be taken by a walk, one for each node in
document order. Then any paths but the root's can be pruned in any order, and what is left is the
text without what goes with them. -/
theorem print_pruned {η : Type} {parser : ParserId} {text : String} {w w' : Workspace η}
    {root : NodeId} (hparse : perform (Work.parse parser text) w = (.ok root, w'))
    {parsed : Parsed}
    (htree : w.grammars.tree (w.parsers.getD parser default).language text = some parsed)
    (hwf : parsed.root.WellFormed text) (p : Printer) :
    ∃ ps d, perform (do Edit.walk (← Edit.addRoot root)) w'.document = (.ok ps, d) ∧
      ps.map (fun q => (d.path q).node) = List.range' root parsed.root.count ∧
      ∀ qs : List PathId, qs.Nodup → qs ⊆ ps → (∀ q ∈ qs, (d.path q).parent ≠ none) →
        InOrder 0 text.toUTF8.size (parsed.root.cuts (d.standsOn qs) root) ∧
        ∃ out : String, out.toUTF8 = patched text.toUTF8 0 text.toUTF8.size
            (parsed.root.cuts (d.standsOn qs) root) ∧
          ∀ order : List PathId, order.Perm qs → ∃ parents d',
            perform (order.mapM Edit.prune) d = (.ok parents, d') ∧
            p.print d'.forest root (d'.forest.node root).source = .ok out := by
  obtain ⟨stamp, parsed', g, htree', hplant, hdoc⟩ := Work.parse_eq_ok hparse
  rw [htree, Option.some.injEq] at htree'
  subst htree'
  have hg := SyntaxTree.rooted_of_plant hplant
  have hforest : w'.document.forest = g := by rw [hdoc]
  rw [← hforest] at hg
  obtain ⟨ps, d, hps, hnodes, hw, hu, hparent⟩ := walked_of_rooted hg
  refine ⟨ps, d, hps, hnodes, fun qs hqs hsub hroot => ?_⟩
  have hrun : ∀ order : List PathId, order.Perm qs → ∃ parents d',
      perform (order.mapM Edit.prune) d = (.ok parents, d') ∧
      (d'.forest.node root).source = some (.ofText stamp text) ∧
      Overlaid p text d'.forest root (parsed.root.spanning text.toUTF8.size)
        (parsed.root.cuts (d.standsOn qs) root) := by
    intro order hperm
    obtain ⟨parents, d', hd', hu'⟩ := Underway.pruneAll hw hu (List.nil_subset _)
      (hperm.nodup_iff.2 hqs) fun q hq => by
        have hq := hperm.mem_iff.1 hq
        refine ⟨hsub hq, List.not_mem_nil, ?_⟩
        rintro rfl
        exact hroot _ hq hparent
    have hgone : d.standsOn (order.reverse ++ []) = d.standsOn qs := by
      funext n
      rw [List.append_nil]
      exact (order.reverse_perm.trans hperm).any_eq
    have hthin := hu'.thinned
    rw [hgone] at hthin
    refine ⟨parents, d', hd', ?_, hthin.overlaid_root hg hwf⟩
    obtain ⟨fields, -, hnode⟩ := hthin.node root (.refl root)
    obtain ⟨u, -, htop⟩ := hg.top
    rw [hnode, htop]
    rfl
  obtain ⟨_, _, _, _, ho⟩ := hrun qs (.refl qs)
  have horder := ho.inOrder
  obtain ⟨out, hout, hbytes⟩ := ho.writes
  rw [SyntaxTree.start_spanning, SyntaxTree.stop_spanning] at horder hbytes
  refine ⟨horder, out, hbytes, fun order hperm => ?_⟩
  obtain ⟨parents, d', hd', hsource, ho'⟩ := hrun order hperm
  refine ⟨parents, d', hd', ?_⟩
  obtain ⟨v, hv, hv'⟩ := ho'.writes
  rw [SyntaxTree.start_spanning, SyntaxTree.stop_spanning, ← hbytes] at hv'
  rw [hsource, p.print_some ho'.acyclic, hv, String.toByteArray_inj.1 hv']

/-- Two calls with names in them, each set apart in its own way. -/
def callsTree : SyntaxTree :=
  .node "program" 1 17 true false none
    [.node "call" 1 9 true false none
      [.node "name" 2 4 true false none [], .node "name" 5 6 true false none [],
        .node "name" 7 8 true false none []],
     .node ";" 10 11 false false none [],
     .node "call" 12 17 true false none
      [.node "name" 13 14 true false none [], .node "name" 15 16 true false none []]]

/-- The text of the calls. -/
def callsText : String := " (é,b,c) ; (d,e) "

/-- A workspace whose grammar makes the calls of every text. -/
def callsWorkspace : Workspace Unit :=
  ⟨.empty, .start "" default, ⟨[], fun _ _ => some ⟨callsTree, false⟩⟩,
    #[⟨"python", true, true⟩], #[], #[], 0, #[]⟩

/-- The calls are parsed. -/
def callsParsed : Workspace Unit :=
  (perform (Work.parse 0 callsText) callsWorkspace).2

/-- The paths of the calls are taken. -/
def callsWalked : Document :=
  (perform (do Edit.walk (← Edit.addRoot 0)) callsParsed.document).2

/-- The second call goes before a name in it, and of the first call the names at both ends. -/
theorem print_pruned_calls :
    perform (Work.parse 0 callsText) callsWorkspace = (.ok 0, callsParsed) ∧
    perform (do Edit.walk (← Edit.addRoot 0)) callsParsed.document =
      (.ok [0, 1, 4, 5, 6, 2, 3, 7, 8], callsWalked) ∧
    ∀ order ∈ [[3, 7, 4, 6], [6, 7, 3, 4]], ∃ parents d',
      perform (order.mapM Edit.prune) callsWalked = (.ok parents, d') ∧
      (⟨"_"⟩ : Printer).print d'.forest 0 (d'.forest.node 0).source = .ok " (b) ; " := by
  have hparse : perform (Work.parse 0 callsText) callsWorkspace = (.ok 0, callsParsed) :=
    perform_eq_of_toOption (by decide +kernel)
  have hwalk : perform (do Edit.walk (← Edit.addRoot 0)) callsParsed.document =
      (.ok [0, 1, 4, 5, 6, 2, 3, 7, 8], callsWalked) :=
    perform_eq_of_toOption (by decide +kernel)
  refine ⟨hparse, hwalk, fun order horder => ?_⟩
  obtain ⟨ps, d, hps, -, hprune⟩ := print_pruned hparse
    (show callsWorkspace.grammars.tree _ callsText = some ⟨callsTree, false⟩ from rfl)
    (show callsTree.WellFormed callsText by decide +kernel) ⟨"_"⟩
  rw [hwalk, Prod.mk.injEq, Except.ok.injEq] at hps
  obtain ⟨rfl, rfl⟩ := hps
  obtain ⟨-, out, hbytes, hrun⟩ := hprune [3, 7, 4, 6] (by decide) (by decide) (by decide +kernel)
  have hsame : out.toUTF8 = " (b) ; ".toUTF8 := hbytes.trans (by decide +kernel)
  rw [← String.toByteArray_inj.1 hsame]
  refine hrun order ?_
  revert order
  decide

end Retouch
