import Retouch.Proofs.Cuts
import Retouch.Proofs.Sameness

/-!
# What covers the source

A text covers a stretch of the source if the characters of the stretch are found in it in order.
Where the children of a parsed node have got others between them, the source text behind a child of
the parse, up to the next one, is written right behind that child, whatever follows it now. So what
is written for the node covers its span (`Spelled.covers`), and what is written for a node stands as
it is within what is written for the nodes above it (`Spelled.within`).
-/

namespace Retouch

/-- The bytes between two offsets are those of a text whose characters are found in order in
`u`. -/
def Covers (text : String) (a b : Nat) (u : String) : Prop :=
  ∃ v : String, v.toUTF8 = text.toUTF8.extract a b ∧ v.toList.Sublist u.toList

namespace Covers

variable {text : String} {a b c : Nat} {u v : String}

theorem of_bytes (h : u.toUTF8 = text.toUTF8.extract a b) : Covers text a b u :=
  ⟨u, h, .refl _⟩

theorem append (hu : Covers text a b u) (hv : Covers text b c v) (hab : a ≤ b) (hbc : b ≤ c) :
    Covers text a c (u ++ v) := by
  obtain ⟨x, hx, hxu⟩ := hu
  obtain ⟨y, hy, hyv⟩ := hv
  refine ⟨x ++ y, ?_, ?_⟩
  · rw [ByteArray.extract_eq_extract_append_extract b hab hbc, ← hx, ← hy]
    exact String.toByteArray_append
  · rw [String.toList_append, String.toList_append]
    exact hxu.append hyv

theorem behind (h : Covers text a b u) (v : String) : Covers text a b (v ++ u) := by
  obtain ⟨x, hx, hxu⟩ := h
  refine ⟨x, hx, hxu.trans ?_⟩
  rw [String.toList_append]
  exact List.sublist_append_right _ _

end Covers

/-! ## The children of one node -/

theorem getElem?_of_drop {α : Type} {l xs : List α} {k : Nat} {x : α} (h : l.drop k = x :: xs) :
    l[k]? = some x ∧ l.drop (k + 1) = xs := by
  constructor
  · rw [← Nat.add_zero k, ← List.getElem?_drop, h]
    rfl
  · rw [← List.drop_drop, h]
    rfl

/-- Among the nodes `cs` those of the parse, which stand for the trees `ts`, stay in order. The gaps
are the printer's, and each node of the parse covers its tree. -/
structure Threaded (p : Printer) (text : String) (stamp : Nat) (f : Forest)
    (former : List NodeId) (ts : List SyntaxTree) (cs : List NodeId)
    (gap : Nat → NodeId → NodeId → String) (texts : NodeId → String) : Prop where
  marks : List.Forall₂ (Marks (.ofText stamp text) f) former ts
  nodup : former.Nodup
  sublist : former.Sublist cs
  gaps : ∀ i prev cur, cs[i]? = some prev → cs[i + 1]? = some cur →
    p.gap f (.ofText stamp text) former cs.length (i + 1) prev cur = .ok (gap (i + 1) prev cur)
  covers : List.Forall₂ (fun c t => Covers text t.start t.stop (texts c)) former ts

namespace Threaded

variable {p : Printer} {text : String} {stamp : Nat} {f : Forest} {former cs : List NodeId}
  {ts : List SyntaxTree} {gap : Nat → NodeId → NodeId → String} {texts : NodeId → String}

/-- A child of the parse that has another one behind it in the parse is followed by the source text
between them, whichever child follows now. -/
theorem covers_gap (h : Threaded p text stamp f former ts cs gap texts) {i k : Nat}
    {o c : NodeId} {t t' : SyntaxTree} (ho : former[k]? = some o) (ht : ts[k]? = some t)
    (ht' : ts[k + 1]? = some t') (hi : cs[i]? = some o) (hc : cs[i + 1]? = some c)
    (hstop : Boundary text t.stop) (hstart : Boundary text t'.start) (hle : t.stop ≤ t'.start) :
    Covers text t.stop t'.start (gap (i + 1) o c) := by
  obtain ⟨u, hu, hbytes⟩ := Source.slice_ofText stamp hstop hstart hle
  have hlen : k + 1 < former.length := by
    rw [h.marks.length_eq]
    exact (List.getElem?_eq_some_iff.1 ht').1
  have hgap : p.gap f (.ofText stamp text) former cs.length (i + 1) o c = .ok u := by
    rw [← hu, ← formerGap_eq h.marks ht ht']
    unfold Printer.gap
    split_ifs with hcount
    · -- nothing was inserted here, so the slot is that of the parse
      rw [← h.sublist.eq_of_length hcount] at hi
      obtain ⟨hi', hget⟩ := List.getElem?_eq_some_iff.1 hi
      obtain ⟨hk', hget'⟩ := List.getElem?_eq_some_iff.1 ho
      rw [(h.nodup.getElem_inj_iff).1 (hget.trans hget'.symm), Nat.add_sub_cancel]
    · rw [lastPosition?_eq h.nodup ho]
      simp [hlen]
  rw [h.gaps i o c hi hc, Except.ok.injEq] at hgap
  rw [hgap]
  exact .of_bytes hbytes

section Suffix

variable {b : Nat} {trailing : String} {done rest : List NodeId} {k : Nat} {c o : NodeId}
  {os : List NodeId} {t : SyntaxTree} {us : List SyntaxTree}

/-- A child of the parse covers its tree, the gap behind it what comes before the next tree, and so
on if the rest does. -/
theorem covers_own (h : Threaded p text stamp f former ts cs gap texts)
    (hcs : cs = done ++ o :: rest) (hos : former.drop k = o :: os) (hus : ts.drop k = t :: us)
    (hplaced : SyntaxTree.WellPlaced text t.start b (t :: us))
    (htrailing : trailing.toUTF8 = text.toUTF8.extract (endOf t.stop us) b)
    (hsub : os.Sublist rest)
    (hnext : ∀ d rest' o' os' t' us', rest = d :: rest' → os = o' :: os' → us = t' :: us' →
      Covers text t'.start b
        (texts d ++ (wovenAfter gap texts (done.length + 1 + 1) d rest' ++ trailing))) :
    Covers text t.start b
      (texts o ++ (wovenAfter gap texts (done.length + 1) o rest ++ trailing)) := by
  obtain ⟨ho, -⟩ := getElem?_of_drop hos
  obtain ⟨ht, hus'⟩ := getElem?_of_drop hus
  obtain ⟨-, hwell, hbehind⟩ := hplaced
  have hmarks := List.forall₂_drop k h.marks
  have hcovers := List.forall₂_drop k h.covers
  rw [hos, hus] at hmarks hcovers
  refine (List.forall₂_cons.1 hcovers).1.append ?_ hwell.le hbehind.le
  rcases us with _ | ⟨t', us⟩
  · exact (Covers.of_bytes htrailing).behind _
  obtain ⟨o', os', -, -, rfl⟩ := List.forall₂_cons_right_iff.1 (List.forall₂_cons.1 hmarks).2
  rcases rest with _ | ⟨d, rest⟩
  · cases hsub
  obtain ⟨hle, hwell', hbehind'⟩ := hbehind
  obtain ⟨ht', -⟩ := getElem?_of_drop hus'
  have hgap := h.covers_gap (i := done.length) (c := d) ho ht ht' (by simp [hcs]) (by simp [hcs])
    (SyntaxTree.wellFormed_iff.1 hwell).2.1 (SyntaxTree.wellFormed_iff.1 hwell').1 hle
  have hrest := hgap.append (hnext d rest o' os' t' us rfl rfl rfl) hle
    (hwell'.le.trans hbehind'.le)
  rw [wovenAfter]
  simpa only [String.append_assoc] using hrest

/-- From a child on, if those of the parse that are still to come are among it and the children
behind it, all that is left of the parse is covered. -/
theorem covers_from (h : Threaded p text stamp f former ts cs gap texts)
    (hcs : cs = done ++ c :: rest) (hos : former.drop k = o :: os) (hus : ts.drop k = t :: us)
    (hplaced : SyntaxTree.WellPlaced text t.start b (t :: us))
    (htrailing : trailing.toUTF8 = text.toUTF8.extract (endOf t.stop us) b)
    (hsub : (o :: os).Sublist (c :: rest)) :
    Covers text t.start b
      (texts c ++ (wovenAfter gap texts (done.length + 1) c rest ++ trailing)) := by
  induction rest generalizing done c k o os t us with
  | nil =>
    cases hsub with
    | cons _ hsub => cases hsub
    | cons_cons _ hsub =>
      refine h.covers_own hcs hos hus hplaced htrailing hsub ?_
      rintro d rest' o' os' t' us' ⟨⟩
  | cons d rest ih =>
    have hcs' : cs = (done ++ [c]) ++ d :: rest := by simp [hcs]
    have hlen : (done ++ [c]).length = done.length + 1 := by simp
    cases hsub with
    | cons _ hsub =>
      -- a child that was inserted, or a copy: the parse goes on behind it
      have hrest := ((ih hcs' hos hus hplaced htrailing hsub).behind
        (gap (done.length + 1) c d)).behind (texts c)
      rw [hlen] at hrest
      rw [wovenAfter]
      simpa only [String.append_assoc] using hrest
    | cons_cons _ hsub =>
      refine h.covers_own hcs hos hus hplaced htrailing hsub ?_
      rintro d' rest' o' os' t' us' ⟨⟩ rfl rfl
      obtain ⟨-, -, -, hwell, hbehind⟩ := hplaced
      rw [← hlen]
      exact ih hcs' (getElem?_of_drop hos).2 (getElem?_of_drop hus).2 ⟨le_rfl, hwell, hbehind⟩
        htrailing hsub

end Suffix

end Threaded

/-! ## The nodes of a parse -/

namespace SyntaxTree

theorem ThroughoutAll.forall₂ {Q : SyntaxTree → NodeId → Prop} : ∀ {ts : List SyntaxTree}
    {n : Nat}, ThroughoutAll Q ts n → List.Forall₂ (fun c t => Throughout Q t c) (rootIds n ts) ts
  | [], _, _ => .nil
  | _ :: _, _, h => .cons h.1 h.2.forall₂

/-- The node of a tree remembers its parse, and has at most got further children. -/
structure Widened (source : Source) (g f : Forest) (t : SyntaxTree) (n : NodeId) : Prop where
  stands : Stands source g t n
  memory : (f.node n).memory = (g.node n).memory
  text : (f.node n).text = (g.node n).text
  leaf : (g.node n).children = [] → (f.node n).children = []
  sublist : (g.node n).children.Sublist (f.node n).children

namespace Widened

variable {source : Source} {g f : Forest} {t : SyntaxTree} {n : NodeId}

theorem memory_eq (h : Widened source g f t n) : ∃ u, (f.node n).memory =
    (some ((t.start : Int), (t.stop : Int)), some source,
      some ⟨u, rootIds (n + 1) t.children⟩) := by
  obtain ⟨u, -, hn⟩ := h.stands
  rw [h.memory, hn]
  exact ⟨u, rfl⟩

theorem source_eq (h : Widened source g f t n) : (f.node n).source = some source := by
  obtain ⟨u, hmem⟩ := h.memory_eq
  exact congrArg (·.2.1) hmem

theorem span_eq (h : Widened source g f t n) :
    (f.node n).span = some ((t.start : Int), (t.stop : Int)) := by
  obtain ⟨u, hmem⟩ := h.memory_eq
  exact congrArg (·.1) hmem

theorem snapshot_eq (h : Widened source g f t n) :
    ∃ u, (f.node n).snapshot = some ⟨u, rootIds (n + 1) t.children⟩ := by
  obtain ⟨u, hmem⟩ := h.memory_eq
  exact ⟨u, congrArg (·.2.2) hmem⟩

theorem isParsed (h : Widened source g f t n) : (f.node n).isParsed = true := by
  obtain ⟨u, hsnap⟩ := h.snapshot_eq
  simp [Node.isParsed, h.span_eq, h.source_eq, hsnap]

theorem marks (h : Widened source g f t n) : Marks source f n t :=
  ⟨h.span_eq, h.source_eq⟩

theorem untouched (h : Widened source g f t n) (hc : t.children = []) : f.Untouched n := by
  obtain ⟨u, -, hn⟩ := h.stands
  have hnone : (g.node n).children = [] := by simp [hn, grown, hc, rootIds]
  have hmod : (f.node n).isModified = false := by
    refine (Node.isModified_iff h.memory (by simp [hn, grown]) (by simp [hn, grown])
      (by simp [hn, grown])).2 ⟨h.text, ?_⟩
    rw [h.leaf hnone, hnone]
  intro m hm
  rcases Forest.below_iff.1 hm with rfl | ⟨c, hmem, -⟩
  · exact hmod
  · rw [h.leaf hnone] at hmem
    cases hmem

theorem text_inner (h : Widened source g f t n) (hc : t.children ≠ []) :
    (f.node n).text = none := by
  rw [h.text, h.stands.inner hc]
  rfl

end Widened

end SyntaxTree

theorem Boundary.bytes_of_slice {text : String} {a b : Nat} {stamp : Nat} {u : String}
    (ha : Boundary text a) (hb : Boundary text b) (hab : a ≤ b)
    (h : (Source.ofText stamp text).slice a b = .ok u) : u.toUTF8 = text.toUTF8.extract a b := by
  obtain ⟨v, hv, hbytes⟩ := Source.slice_ofText stamp ha hb hab
  rw [h, Except.ok.injEq] at hv
  rw [hv]
  exact hbytes

namespace Printer

variable {p : Printer} {g f : Forest} {text : String} {stamp : Nat} {n : NodeId}

section Framed

variable {leading trailing : String} {gap : Nat → NodeId → NodeId → String}
  {texts : NodeId → String} {t : SyntaxTree}

theorem Framed.threaded (hf : p.Framed f n leading gap trailing) (ht : t.WellFormed text)
    (hw : t.Throughout (SyntaxTree.Widened (.ofText stamp text) g f) n)
    (hcov : ∀ c ∈ (f.node n).children, ∀ t : SyntaxTree, t.WellFormed text →
      t.Throughout (SyntaxTree.Widened (.ofText stamp text) g f) c →
      Covers text t.start t.stop (texts c)) :
    Threaded p text stamp f (SyntaxTree.rootIds (n + 1) t.children) t.children
      (f.node n).children gap texts := by
  obtain ⟨u, hsnap⟩ := hw.here.snapshot_eq
  have hsub : (SyntaxTree.rootIds (n + 1) t.children).Sublist (f.node n).children := by
    obtain ⟨_, -, hn⟩ := hw.here.stands
    simpa [hn, SyntaxTree.grown] using hw.here.sublist
  have hroots := hw.below.forall₂
  have hplaced := (SyntaxTree.wellFormed_iff.1 ht).2.2
  refine ⟨hroots.imp fun _ _ h => h.here.marks, SyntaxTree.nodup_rootIds _ _, hsub, ?_, ?_⟩
  · intro i prev cur hi hj
    have hgap := hf.gap i prev cur hi hj
    simpa [gapIn, hw.here.source_eq, Node.formerChildren, hsnap] using hgap
  · refine List.forall₂_iff_get.2 ⟨hroots.length_eq, fun i h1 h2 => ?_⟩
    exact hcov _ (hsub.subset (List.getElem_mem h1)) _
      (hplaced.wellFormed _ (List.getElem_mem h2)) (hroots.get h1 h2)

/-- The text around the children is that of the source around those of the parse. -/
theorem Framed.bytes (hf : p.Framed f n leading gap trailing) (ht : t.WellFormed text)
    (hw : t.Throughout (SyntaxTree.Widened (.ofText stamp text) g f) n) {t' : SyntaxTree}
    {us : List SyntaxTree} (hc : t.children = t' :: us) :
    leading.toUTF8 = text.toUTF8.extract t.start t'.start ∧
      trailing.toUTF8 = text.toUTF8.extract (endOf t'.stop us) t.stop := by
  obtain ⟨u, hsnap⟩ := hw.here.snapshot_eq
  obtain ⟨hstart, hstop, hplaced⟩ := SyntaxTree.wellFormed_iff.1 ht
  have hformer : (f.node n).formerChildren = SyntaxTree.rootIds (n + 1) t.children := by
    simp [Node.formerChildren, hsnap]
  have hmarks := hw.below.forall₂.imp fun _ _ h => h.here.marks
  rw [hc] at hformer hmarks hplaced
  obtain ⟨last, x, hlast, hspan⟩ := marks_getLast? t.start (List.cons_ne_nil t' us) hmarks
  have hleading := hf.leading
  have htrailing := hf.trailing
  simp only [Forest.leading, Forest.trailing, hw.here.source_eq, hw.here.span_eq, hformer, hlast,
    hspan, ok_bind] at hleading htrailing
  simp only [SyntaxTree.rootIds, List.head?_cons, (List.forall₂_cons.1 hmarks).1.spanOf,
    ok_bind] at hleading
  have hend := (hplaced.boundary_endOf hstart).bytes_of_slice hstop hplaced.endOf_le htrailing
  obtain ⟨hle, hwell, -⟩ := hplaced
  exact ⟨hstart.bytes_of_slice (SyntaxTree.wellFormed_iff.1 hwell).1 hle hleading, hend⟩

/-- A rebuilt node covers its tree, if the children of the parse cover theirs. -/
theorem Framed.covers (hf : p.Framed f n leading gap trailing) (ht : t.WellFormed text)
    (hw : t.Throughout (SyntaxTree.Widened (.ofText stamp text) g f) n) (hc : t.children ≠ [])
    (hcov : ∀ c ∈ (f.node n).children, ∀ t : SyntaxTree, t.WellFormed text →
      t.Throughout (SyntaxTree.Widened (.ofText stamp text) g f) c →
      Covers text t.start t.stop (texts c)) :
    Covers text t.start t.stop (leading ++ (woven gap texts (f.node n).children ++ trailing)) := by
  have hthreaded := hf.threaded ht hw hcov
  have hplaced := (SyntaxTree.wellFormed_iff.1 ht).2.2
  rcases hts : t.children with _ | ⟨t', us⟩
  · exact absurd hts hc
  obtain ⟨hleading, htrailing⟩ := hf.bytes ht hw hts
  rw [hts] at hthreaded hplaced
  obtain ⟨hle, hwell, hbehind⟩ := hplaced
  have hsub := hthreaded.sublist
  rcases hcs : (f.node n).children with _ | ⟨c, rest⟩
  · rw [hcs] at hsub
    cases hsub
  rw [hcs] at hthreaded hsub
  have hfrom := hthreaded.covers_from (k := 0) (List.nil_append _).symm rfl rfl
    ⟨le_rfl, hwell, hbehind⟩ htrailing hsub
  have hall := (Covers.of_bytes hleading).append hfrom hle (hwell.le.trans hbehind.le)
  simpa only [woven, String.append_assoc, List.length_nil, Nat.zero_add] using hall

end Framed

/-- What is written for a node of the parse covers its tree. -/
theorem Spelled.covers {s : String} (hs : p.Spelled f n s) : ∀ t : SyntaxTree, t.WellFormed text →
    t.Throughout (SyntaxTree.Widened (.ofText stamp text) g f) n →
    Covers text t.start t.stop s := by
  induction hs with
  | @verbatim n s hu hs =>
    intro t ht hw
    obtain ⟨hstart, hstop, -⟩ := SyntaxTree.wellFormed_iff.1 ht
    simp only [Forest.verbatim, hw.here.source_eq, hw.here.span_eq] at hs
    exact .of_bytes (hstart.bytes_of_slice hstop ht.le hs)
  | @text n s hu hs =>
    intro t ht hw
    by_cases hc : t.children = []
    · exact absurd (hw.here.untouched hc) hu
    · simp [hw.here.text_inner hc] at hs
  | @rebuilt n leading trailing gap texts hu htext hp hf _ ih =>
    intro t ht hw
    by_cases hc : t.children = []
    · exact absurd (hw.here.untouched hc) hu
    · exact hf.covers ht hw hc ih
  | @joined n texts hu htext hp _ _ =>
    intro t ht hw
    simp [hw.here.isParsed] at hp

/-! ## Neighbours -/

theorem mem_wovenAfter (gap : Nat → NodeId → NodeId → String) (texts : NodeId → String)
    {c : NodeId} : ∀ {cs : List NodeId} (i : Nat) (prev : NodeId), c ∈ cs →
    ∃ x y, wovenAfter gap texts i prev cs = x ++ (texts c ++ y)
  | d :: cs, i, prev, hc => by
    rcases List.mem_cons.1 hc with rfl | hc
    · exact ⟨gap i prev c, wovenAfter gap texts (i + 1) c cs, rfl⟩
    · obtain ⟨x, y, hxy⟩ := mem_wovenAfter gap texts (i + 1) d hc
      refine ⟨gap i prev d ++ (texts d ++ x), y, ?_⟩
      rw [wovenAfter, hxy]
      simp only [String.append_assoc]

theorem mem_woven (gap : Nat → NodeId → NodeId → String) (texts : NodeId → String) {c : NodeId}
    {cs : List NodeId} (hc : c ∈ cs) : ∃ x y, woven gap texts cs = x ++ (texts c ++ y) := by
  rcases cs with _ | ⟨d, cs⟩
  · cases hc
  rcases List.mem_cons.1 hc with rfl | hc
  · exact ⟨"", wovenAfter gap texts 1 c cs, by simp [woven]⟩
  · obtain ⟨x, y, hxy⟩ := mem_wovenAfter gap texts 1 d hc
    exact ⟨texts d ++ x, y, by rw [woven, hxy, String.append_assoc]⟩

/-- Down from a node, through nodes of the parse to one that was touched, what is written for the
node stands within what is written above it. -/
theorem Spelled.within {t : SyntaxTree} {s : String} (hs : p.Spelled f n s)
    (hw : t.Throughout (SyntaxTree.Widened (.ofText stamp text) g f) n) {m : NodeId}
    (hm : g.Below n m) (hu : ¬ f.Untouched m) :
    ∃ u before after, p.Spelled f m u ∧ s = before ++ (u ++ after) := by
  have hb : t.Throughout (SyntaxTree.Branches g) n := hw.imp fun _ _ _ _ h => h.stands.branches
  induction hm with
  | refl => exact ⟨s, "", "", hs, by simp⟩
  | @tail b c hm hc ih =>
    obtain ⟨h1, h2⟩ := hb.below_iff.1 hm
    obtain ⟨t', ht', -⟩ := hw.at h1 h2
    have hmem : c ∈ (f.node b).children := ht'.here.sublist.subset hc
    have hne : t'.children ≠ [] := by
      rintro hnil
      rw [Forest.Holds, ht'.here.stands.branches, hnil] at hc
      cases hc
    have hub : ¬ f.Untouched b := fun h => hu fun m hm => h m (.of_child hmem hm)
    obtain ⟨u, before, after, hspelled, rfl⟩ := ih hub
    obtain ⟨leading, gap, trailing, texts, htexts, rfl, -⟩ :=
      hspelled.around hub (ht'.here.text_inner hne)
    obtain ⟨x, y, hxy⟩ := mem_woven gap texts hmem
    refine ⟨texts c, before ++ (leading ++ x), y ++ (trailing ++ after), htexts c hmem, ?_⟩
    rw [hxy]
    simp only [String.append_assoc]

end Printer

end Retouch
