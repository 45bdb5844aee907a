import Retouch.Proofs.Layout
import Retouch.Proofs.Patching
import Retouch.Proofs.Rendering

/-!
# Nodes rebuilt around their children

A parsed node that was changed is written from the text around and between its former children.
While the number of its children is that of the parse, this comes to laying the texts of the
children over the node's span, each in its slot (`textOf_slots`). A pristine node is written as the
slice of its span, which is the same, so a reader of the printer need not know which nodes are
pristine.
-/

namespace Retouch

/-- The text is there, and these are its bytes. -/
def Writes (x : Except Fault String) (bytes : ByteArray) : Prop :=
  ∃ u, x = .ok u ∧ u.toUTF8 = bytes

namespace Writes

variable {g : NodeId → Except Fault String} {ps qs : List Piece} {a b : ByteArray}

theorem unique {x : Except Fault String} (h : Writes x a) (h' : Writes x b) : a = b := by
  obtain ⟨u, hu, rfl⟩ := h
  obtain ⟨v, hv, rfl⟩ := h'
  rw [hu] at hv
  cases hv
  rfl

theorem nil : Writes (writeAll g []) ByteArray.empty :=
  ⟨"", rfl, rfl⟩

theorem text {s : String} (hs : s.toUTF8 = a) (h : Writes (writeAll g ps) b) :
    Writes (writeAll g (.text s :: ps)) (a ++ b) := by
  obtain ⟨u, hu, rfl⟩ := h
  refine ⟨s ++ u, by simp [writeAll, hu], ?_⟩
  rw [← hs]
  exact String.toByteArray_append

theorem node {n : NodeId} (hn : Writes (g n) a) (h : Writes (writeAll g ps) b) :
    Writes (writeAll g (.node n :: ps)) (a ++ b) := by
  obtain ⟨u, hu, rfl⟩ := h
  obtain ⟨v, hv, rfl⟩ := hn
  exact ⟨v ++ u, by simp [writeAll, hu, hv], String.toByteArray_append⟩

end Writes

theorem Boundary.writes_slice {text : String} {a b : Nat} (stamp : Nat) (ha : Boundary text a)
    (hb : Boundary text b) (hab : a ≤ b) :
    Writes ((Source.ofText stamp text).slice a b) (text.toUTF8.extract a b) :=
  Source.slice_ofText stamp ha hb hab

/-! ## Spans of former children -/

/-- The node remembers the span of a tree over a source. -/
def Marks (source : Source) (f : Forest) (c : NodeId) (t : SyntaxTree) : Prop :=
  (f.node c).span = some ((t.start : Int), (t.stop : Int)) ∧ (f.node c).source = some source

/-- Where the last of some trees ends, which follow the offset `a`. -/
def endOf : Nat → List SyntaxTree → Nat
  | a, [] => a
  | _, t :: ts => endOf t.stop ts

/-- The bytes for the place of a tree. -/
def SyntaxTree.patch (t : SyntaxTree) (bytes : ByteArray) : Patch :=
  ⟨t.start, t.stop, bytes⟩

section Spans

variable {text : String} {source : Source} {f : Forest} {former : List NodeId}
  {ts : List SyntaxTree}

theorem Marks.spanOf {c : NodeId} {t : SyntaxTree} (h : Marks source f c t) :
    f.spanOf c = .ok ((t.start : Int), (t.stop : Int)) := by
  unfold Forest.spanOf
  rw [h.1]

theorem marks_getElem? (h : List.Forall₂ (Marks source f) former ts) {k : Nat} {t : SyntaxTree}
    (ht : ts[k]? = some t) : ∃ c, former[k]? = some c ∧ Marks source f c t := by
  obtain ⟨hk, rfl⟩ := List.getElem?_eq_some_iff.1 ht
  have hk' : k < former.length := h.length_eq ▸ hk
  exact ⟨former[k], List.getElem?_eq_getElem hk', h.get hk' hk⟩

theorem formerGap_eq (h : List.Forall₂ (Marks source f) former ts) {k : Nat}
    {t t' : SyntaxTree} (ht : ts[k]? = some t) (ht' : ts[k + 1]? = some t') :
    Printer.formerGap f source former k = source.slice t.stop t'.start := by
  obtain ⟨c, hc, hm⟩ := marks_getElem? h ht
  obtain ⟨c', hc', hm'⟩ := marks_getElem? h ht'
  unfold Printer.formerGap
  simp only [hc, hc', hm.spanOf, hm'.spanOf, ok_bind]

theorem marks_getLast? : ∀ {former : List NodeId} {ts : List SyntaxTree} (a : Nat), ts ≠ [] →
    List.Forall₂ (Marks source f) former ts →
    ∃ c x, former.getLast? = some c ∧ f.spanOf c = .ok (x, ((endOf a ts : Nat) : Int))
  | _, [], _, hne, _ => absurd rfl hne
  | [c], [t], _, _, h => ⟨c, _, rfl, (List.forall₂_cons.1 h).1.spanOf⟩
  | _ :: c :: cs, t :: t' :: ts, _, _, h => by
    rw [List.getLast?_cons_cons]
    exact marks_getLast? t.stop (List.cons_ne_nil t' ts) (List.forall₂_cons.1 h).2
  | [], _ :: _, _, _, h => by cases h
  | [_], _ :: _ :: _, _, _, h => by cases (List.forall₂_cons.1 h).2
  | _ :: _ :: _, [_], _, _, h => by cases (List.forall₂_cons.1 h).2

theorem SyntaxTree.WellPlaced.inOrder : ∀ {ts : List SyntaxTree} {outs : List ByteArray}
    {a b : Nat}, WellPlaced text a b ts → InOrder a b (ts.zipWith SyntaxTree.patch outs)
  | [], _, _, _, h => h
  | _ :: _, [], _, _, h => h.le
  | _ :: _, _ :: _, _, _, ⟨h1, h2, h3⟩ => ⟨h1, h2.le, h3.inOrder⟩

theorem SyntaxTree.WellPlaced.endOf_le : ∀ {ts : List SyntaxTree} {a b : Nat},
    WellPlaced text a b ts → endOf a ts ≤ b
  | [], _, _, h => h
  | _ :: _, _, _, ⟨_, _, h3⟩ => h3.endOf_le

theorem SyntaxTree.WellPlaced.boundary_endOf : ∀ {ts : List SyntaxTree} {a b : Nat},
    Boundary text a → WellPlaced text a b ts → Boundary text (endOf a ts)
  | [], _, _, ha, _ => ha
  | t :: ts, _, _, _, ⟨_, h2, h3⟩ =>
    show Boundary text (endOf t.stop ts) from h3.boundary_endOf (wellFormed_iff.1 h2).2.1

end Spans

/-! ## A child in every slot -/

section Slots

variable {text : String} {stamp : Nat} {f : Forest} {former : List NodeId}
  {out : NodeId → Except Fault String} (p : Printer)

/-- The children behind a slot are written with the gaps of their own slots before them. -/
theorem gappedAfter_slots {b : Nat} {tail : String} : ∀ {us : List SyntaxTree} {cs : List NodeId}
    {outs : List ByteArray} (before : List SyntaxTree) {t : SyntaxTree} (prev : NodeId),
    List.Forall₂ (Marks (.ofText stamp text) f) former (before ++ t :: us) →
    Boundary text t.stop → SyntaxTree.WellPlaced text t.stop b us → cs.length = us.length →
    List.Forall₂ (fun c o => Writes (out c) o) cs outs →
    tail.toUTF8 = text.toUTF8.extract (endOf t.stop us) b →
    ∃ pieces, p.gappedAfter f (.ofText stamp text) former former.length (before.length + 1) prev
        cs = .ok pieces ∧
      Writes (writeAll out (pieces ++ [.text tail]))
        (patched text.toUTF8 t.stop b (us.zipWith SyntaxTree.patch outs))
  | [], [], [], _, t, _, _, _, _, _, _, htail => by
    refine ⟨[], rfl, ?_⟩
    have := Writes.text (g := out) htail Writes.nil
    simpa [patched, endOf] using this
  | t' :: us, c :: cs, o :: outs, before, t, prev, hm, hb, ⟨h1, h2, h3⟩, hlen, hout, htail => by
    obtain ⟨hc, hout⟩ := List.forall₂_cons.1 hout
    obtain ⟨hstart, hstop, -⟩ := SyntaxTree.wellFormed_iff.1 h2
    obtain ⟨s, hs, hgap⟩ := hb.writes_slice stamp hstart h1
    have hm' : List.Forall₂ (Marks (.ofText stamp text) f) former
        ((before ++ [t]) ++ t' :: us) := by
      simpa using hm
    obtain ⟨pieces, hp, hw⟩ := gappedAfter_slots (before ++ [t]) c hm' hstop h3
      (by simpa using hlen) hout htail
    refine ⟨.text s :: .node c :: pieces, ?_, ?_⟩
    · have ht : (before ++ t :: t' :: us)[before.length]? = some t := by simp
      have ht' : (before ++ t :: t' :: us)[before.length + 1]? = some t' := by simp
      have hg : p.gap f (.ofText stamp text) former former.length (before.length + 1) prev c =
          .ok s := by
        unfold Printer.gap
        rw [if_pos rfl, Nat.add_sub_cancel, formerGap_eq hm ht ht', hs]
      rw [Printer.gappedAfter, hg, ok_bind]
      rw [List.length_append, List.length_singleton] at hp
      rw [hp]
      rfl
    · have := Writes.text (g := out) hgap (Writes.node hc hw)
      rw [← ByteArray.append_assoc] at this
      exact this

/-- A changed node keeps the text before its first former child and behind its last. -/
theorem rebuilt_eq {node : Node} {t t' : SyntaxTree} {us : List SyntaxTree}
    (ht : t.WellFormed text) (hc : t.children = t' :: us) (hformer : node.formerChildren = former)
    (hm : List.Forall₂ (Marks (.ofText stamp text) f) former (t' :: us)) :
    ∃ leading trailing : String, leading.toUTF8 = text.toUTF8.extract t.start t'.start ∧
      trailing.toUTF8 = text.toUTF8.extract (endOf t'.stop us) t.stop ∧
      p.rebuilt f node (.ofText stamp text) (t.start, t.stop) =
        (do
          let inner ← p.gapped f (.ofText stamp text) former node.children
          return .text leading :: inner ++ [.text trailing]) := by
  obtain ⟨hstart, hstop, hplaced⟩ := SyntaxTree.wellFormed_iff.1 ht
  rw [hc] at hplaced
  obtain ⟨leading, hl, hleading⟩ := hstart.writes_slice stamp
    (SyntaxTree.wellFormed_iff.1 hplaced.2.1).1 hplaced.1
  obtain ⟨trailing, hr, htrailing⟩ := (hplaced.boundary_endOf hstart).writes_slice stamp hstop
    hplaced.endOf_le
  obtain ⟨last, x, hlast, hspan⟩ := marks_getLast? t.start (List.cons_ne_nil t' us) hm
  refine ⟨leading, trailing, hleading, htrailing, ?_⟩
  obtain ⟨c, cs, rfl⟩ : ∃ c cs, former = c :: cs := by
    cases hm
    exact ⟨_, _, rfl⟩
  unfold Printer.rebuilt
  rw [hformer, hlast]
  simp only [(List.forall₂_cons.1 hm).1.spanOf, hspan, ok_bind, hl, hr]

/-- A node with as many children as it had is rebuilt by laying their texts over its span. -/
theorem rebuilt_slots {node : Node} {t : SyntaxTree} (ht : t.WellFormed text)
    (hne : t.children ≠ []) (hformer : node.formerChildren = former)
    (hm : List.Forall₂ (Marks (.ofText stamp text) f) former t.children)
    (hlen : node.children.length = t.children.length) {outs : List ByteArray}
    (hout : List.Forall₂ (fun c o => Writes (out c) o) node.children outs) :
    Writes (p.rebuilt f node (.ofText stamp text) (t.start, t.stop) >>= writeAll out)
      (patched text.toUTF8 t.start t.stop (t.children.zipWith SyntaxTree.patch outs)) := by
  obtain ⟨t', us, hc⟩ := List.exists_cons_of_ne_nil hne
  have hplaced := (SyntaxTree.wellFormed_iff.1 ht).2.2
  rw [hc] at hm hplaced hlen ⊢
  obtain ⟨leading, trailing, hleading, htrailing, hr⟩ := rebuilt_eq p ht hc hformer hm
  obtain ⟨n, cs, hcs⟩ : ∃ n cs, node.children = n :: cs := by
    cases hn : node.children with
    | nil => simp [hn] at hlen
    | cons n cs => exact ⟨n, cs, rfl⟩
  rw [hcs] at hout hlen
  cases hout with
  | @cons _ o _ outs ho hout =>
    have hstop := (SyntaxTree.wellFormed_iff.1 hplaced.2.1).2.1
    obtain ⟨pieces, hp, hw⟩ := gappedAfter_slots p [] n hm hstop hplaced.2.2
      (by simpa using hlen) hout htrailing
    have hcount : former.length = (n :: cs).length := by rw [hm.length_eq, hlen]
    have hgapped : p.gapped f (.ofText stamp text) former (n :: cs) = .ok (.node n :: pieces) := by
      rw [Printer.gapped, ← hcount]
      rw [List.length_nil] at hp
      rw [hp]
      rfl
    rw [hr, hcs, hgapped]
    have := Writes.text (g := out) hleading (Writes.node ho hw)
    rw [← ByteArray.append_assoc] at this
    exact this

/-- Texts that are the slices of the spans they stand over are the data's own. -/
theorem own_over : ∀ {cs : List NodeId} {ts : List SyntaxTree} {outs : List ByteArray},
    List.Forall₂ (fun c t => Writes (out c) (text.toUTF8.extract t.start t.stop)) cs ts →
    List.Forall₂ (fun c o => Writes (out c) o) cs outs →
    ∀ e ∈ ts.zipWith SyntaxTree.patch outs, e.bytes = text.toUTF8.extract e.start e.stop
  | [], [], [], _, _, e, he => by simp at he
  | c :: cs, t :: ts, o :: outs, hs, ho, e, he => by
    obtain ⟨hc, hs⟩ := List.forall₂_cons.1 hs
    obtain ⟨hc', ho⟩ := List.forall₂_cons.1 ho
    rw [List.zipWith_cons_cons] at he
    rcases List.mem_cons.1 he with rfl | he
    · exact hc'.unique hc
    · exact own_over hs ho e he

theorem Marks.writes_pristine {c : NodeId} {t : SyntaxTree} (h : Marks (.ofText stamp text) f c t)
    (ht : t.WellFormed text) (hac : f.Acyclic c) (hp : f.isPristine c = true) :
    Writes (p.textOf f c) (text.toUTF8.extract t.start t.stop) := by
  obtain ⟨hstart, hstop, hplaced⟩ := SyntaxTree.wellFormed_iff.1 ht
  rw [p.textOf_pristine hac hp h.2 h.1]
  exact hstart.writes_slice stamp hstop hplaced.le

theorem SyntaxTree.WellPlaced.wellFormed : ∀ {ts : List SyntaxTree} {a b : Nat},
    WellPlaced text a b ts → ∀ t ∈ ts, t.WellFormed text
  | [], _, _, _, t, ht => by cases ht
  | _ :: _, _, _, ⟨_, h2, h3⟩, t, ht => by
    rcases List.mem_cons.1 ht with rfl | ht
    · exact h2
    · exact h3.wellFormed t ht

theorem children_of_isPristine {n : NodeId} {u : Option String} (hac : f.Acyclic n)
    (hp : f.isPristine n = true) (hsnap : (f.node n).snapshot = some ⟨u, former⟩) :
    (f.node n).children = former := by
  have := (Forest.isPristine_iff hac).1 hp n (.refl n)
  simp only [Node.isModified, hsnap, Bool.not_eq_false', Bool.and_eq_true, beq_iff_eq] at this
  exact this.2

theorem textOf_rebuilt {n : NodeId} {t : SyntaxTree} {u : Option String}
    (hn : Marks (.ofText stamp text) f n t) (htext : (f.node n).text = none)
    (hsnap : (f.node n).snapshot = some ⟨u, former⟩) (hac : f.Acyclic n)
    (hp : ¬ f.isPristine n = true) : p.textOf f n =
      (p.rebuilt f (f.node n) (.ofText stamp text) (t.start, t.stop) >>=
        writeAll (p.textOf f)) := by
  rw [p.textOf_eq hac]
  simp only [Printer.expand, hp, htext, hsnap, hn.1, hn.2, Bool.false_eq_true, if_false]

/-- A parsed node with as many children as it had, pristine or not, is written by laying their texts
over its span. -/
theorem textOf_slots {n : NodeId} {t : SyntaxTree} (ht : t.WellFormed text)
    (hne : t.children ≠ []) (hn : Marks (.ofText stamp text) f n t)
    (htext : (f.node n).text = none) (hsnap : (f.node n).snapshot = some ⟨none, former⟩)
    (hm : List.Forall₂ (Marks (.ofText stamp text) f) former t.children)
    (hlen : (f.node n).children.length = t.children.length) (hac : f.Acyclic n)
    {outs : List ByteArray}
    (hout : List.Forall₂ (fun c o => Writes (p.textOf f c) o) (f.node n).children outs) :
    Writes (p.textOf f n)
      (patched text.toUTF8 t.start t.stop (t.children.zipWith SyntaxTree.patch outs)) := by
  have hplaced := (SyntaxTree.wellFormed_iff.1 ht).2.2
  by_cases hp : f.isPristine n = true
  · have hall := (Forest.isPristine_iff hac).1 hp
    have hchildren := children_of_isPristine hac hp hsnap
    have hslices : List.Forall₂
        (fun c t => Writes (p.textOf f c) (text.toUTF8.extract t.start t.stop))
        (f.node n).children t.children := by
      rw [hchildren]
      refine List.forall₂_iff_get.2 ⟨hm.length_eq, fun i h1 h2 => ?_⟩
      have hbelow : f.Below n former[i] :=
        (Forest.Below.refl n).child (hchildren ▸ List.getElem_mem h1)
      refine (hm.get h1 h2).writes_pristine p (hplaced.wellFormed _ (List.getElem_mem h2))
        (hac.below hbelow) ((Forest.isPristine_iff (hac.below hbelow)).2 fun m hm => ?_)
      exact hall m (hbelow.trans hm)
    rw [patched_own hplaced.inOrder (own_over hslices hout)]
    exact hn.writes_pristine p ht hac hp
  · rw [textOf_rebuilt p hn htext hsnap hac hp]
    refine rebuilt_slots p ht hne ?_ hm hlen hout
    simp [Node.formerChildren, hsnap]

/-- Patches within the places of well-placed trees may be laid over at once. -/
theorem patched_over : ∀ {ts : List SyntaxTree} {ess : List (List Patch)} {a b : Nat},
    SyntaxTree.WellPlaced text a b ts →
    List.Forall₂ (fun t es => InOrder t.start t.stop es) ts ess →
    InOrder a b ess.flatten ∧ patched text.toUTF8 a b (ts.zipWith SyntaxTree.patch
      ((ts.zip ess).map fun e => patched text.toUTF8 e.1.start e.1.stop e.2)) =
        patched text.toUTF8 a b ess.flatten
  | [], [], _, _, h, _ => ⟨h, rfl⟩
  | t :: ts, es :: ess, a, b, ⟨h1, _, h3⟩, h => by
    obtain ⟨hes, h⟩ := List.forall₂_cons.1 h
    obtain ⟨horder, heq⟩ := patched_over h3 h
    refine ⟨(hes.mono_left h1).append horder, ?_⟩
    rw [List.flatten_cons, ← patched_resolve h1 hes horder]
    exact congrArg
      (text.toUTF8.extract a t.start ++ patched text.toUTF8 t.start t.stop es ++ ·) heq

/-- The node is written as the span of a tree with patches laid over it. -/
structure Overlaid (p : Printer) (text : String) (f : Forest) (c : NodeId) (t : SyntaxTree)
    (es : List Patch) : Prop where
  inOrder : InOrder t.start t.stop es
  acyclic : f.Acyclic c
  writes : Writes (p.textOf f c) (patched text.toUTF8 t.start t.stop es)

/-- A parsed node with as many children as it had is overlaid with the patches of them all. -/
theorem Overlaid.of_children {n : NodeId} {t : SyntaxTree} (ht : t.WellFormed text)
    (hne : t.children ≠ []) (hn : Marks (.ofText stamp text) f n t)
    (htext : (f.node n).text = none) (hsnap : (f.node n).snapshot = some ⟨none, former⟩)
    (hm : List.Forall₂ (Marks (.ofText stamp text) f) former t.children)
    {ess : List (List Patch)} (hlen : t.children.length = ess.length)
    (h : List.Forall₂ (fun c e => Overlaid p text f c e.1 e.2) (f.node n).children
      (t.children.zip ess)) : Overlaid p text f n t ess.flatten := by
  have hac : f.Acyclic n := .of_children fun c hc => by
    obtain ⟨i, hi, rfl⟩ := List.getElem_of_mem hc
    exact (h.get hi (h.length_eq ▸ hi)).acyclic
  have horders : List.Forall₂ (fun t es => InOrder t.start t.stop es) t.children ess := by
    refine List.forall₂_iff_zip.2 ⟨hlen, fun {t' es} he => ?_⟩
    obtain ⟨i, hi, he⟩ := List.getElem_of_mem he
    have := (h.get (h.length_eq ▸ hi) hi).inOrder
    rw [List.get_eq_getElem, he] at this
    exact this
  obtain ⟨horder, heq⟩ := patched_over (SyntaxTree.wellFormed_iff.1 ht).2.2 horders
  refine ⟨horder, hac, ?_⟩
  have houts : List.Forall₂ (fun c o => Writes (p.textOf f c) o) (f.node n).children
      ((t.children.zip ess).map fun e => patched text.toUTF8 e.1.start e.1.stop e.2) :=
    List.forall₂_map_right_iff.2 (h.imp fun _ _ ho => ho.writes)
  have hlen' : (f.node n).children.length = t.children.length := by
    rw [h.length_eq, List.length_zip, ← hlen, Nat.min_self]
  rw [← heq]
  exact textOf_slots p ht hne hn htext hsnap hm hlen' hac houts

/-- A leaf, pristine or not, is written as its text. -/
theorem textOf_leaf {n : NodeId} {t : SyntaxTree} {u v : String}
    (hn : Marks (.ofText stamp text) f n t) (htext : (f.node n).text = some u)
    (hsnap : (f.node n).snapshot = some ⟨some v, former⟩)
    (hv : (Source.ofText stamp text).slice t.start t.stop = .ok v) (hac : f.Acyclic n) :
    p.textOf f n = .ok u := by
  by_cases hp : f.isPristine n = true
  · have := (Forest.isPristine_iff hac).1 hp n (.refl n)
    simp only [Node.isModified, hsnap, htext, Bool.not_eq_false', Bool.and_eq_true, beq_iff_eq,
      Option.some.injEq] at this
    rw [p.textOf_pristine hac hp hn.2 hn.1, hv, this.1.2]
  · rw [p.textOf_eq hac]
    simp [Printer.expand, hp, htext, writeAll]

/-- A root without children is written as the whole source. -/
theorem Overlaid.of_bare_root {t : SyntaxTree} {f₀ g : Forest} {root : Nat}
    (hg : t.Rooted (.ofText stamp text) f₀ g root) (ht : t.WellFormed text) (hc : t.children = [])
    {fields : List (Option String)} (hnode : f.node root = { g.node root with fields := fields }) :
    Overlaid p text f root (t.spanning text.toUTF8.size) [] := by
  obtain ⟨u, -, htop⟩ := hg.top
  rw [htop] at hnode
  have hchildren : (f.node root).children = [] := by
    rw [hnode]
    simp [SyntaxTree.grown, hc, SyntaxTree.rootIds]
  have hac : f.Acyclic root := .of_children fun c hm => by simp [hchildren] at hm
  have hmarks : Marks (.ofText stamp text) f root (t.spanning text.toUTF8.size) := by
    unfold Marks
    rw [hnode, SyntaxTree.start_spanning, SyntaxTree.stop_spanning]
    exact ⟨rfl, rfl⟩
  have hpristine : f.isPristine root = true := by
    refine (Forest.isPristine_iff hac).2 fun m hm => ?_
    rcases Forest.below_iff.1 hm with rfl | ⟨c, hmem, -⟩
    · rw [hnode]
      simp [Node.isModified, SyntaxTree.grown]
    · simp [hchildren] at hmem
  exact ⟨ht.spanning.le, hac, hmarks.writes_pristine p ht.spanning hac hpristine⟩

end Slots

end Retouch
