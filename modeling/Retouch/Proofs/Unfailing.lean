import Retouch.Proofs.Histories
import Retouch.Proofs.Lookups
import Retouch.Proofs.Spelling
import Retouch.Proofs.Standing

/-!
# Printing never fails

A rebuilt node slices its own source at offsets of other nodes, which may have left the tree long
ago. All through a history, a node with a snapshot has a source whose text has boundaries at the
node's own offsets and at those of its former children (`Forest.Sound`): planting sees to it, and no
edit touches spans, sources and snapshots. So no slice that printing asks for fails
(`Sound.legible`), and printing gives a text (`print_worked`).
-/

namespace Retouch

/-- Between two boundaries, in whichever order, the slice is there. -/
theorem Boundary.exists_slice {text : String} {a b : Nat} (ha : Boundary text a)
    (hb : Boundary text b) (stamp : Nat) : ∃ u, (Source.ofText stamp text).slice a b = .ok u := by
  rcases Nat.le_total a b with hab | hba
  · obtain ⟨u, hu, -⟩ := Source.slice_ofText stamp ha hb hab
    exact ⟨u, hu⟩
  · refine ⟨"", Source.slice_eq_ok_iff.2 ?_⟩
    simp only [Source.bytes, Source.size, Source.ofText]
    rw [Source.bound_of_le ha.le_size, Source.bound_of_le hb.le_size]
    ext1
    simp [hba]

namespace SyntaxTree

mutual

/-- The offsets of the tree and of all its subtrees are boundaries. -/
def Aligned (text : String) : SyntaxTree → Prop
  | .node _ start stop _ _ _ children =>
    Boundary text start ∧ Boundary text stop ∧ AlignedAll text children

/-- The offsets of all trees are boundaries. -/
def AlignedAll (text : String) : List SyntaxTree → Prop
  | [] => True
  | t :: ts => Aligned text t ∧ AlignedAll text ts

end

mutual

instance decidableAligned (text : String) : ∀ t : SyntaxTree, Decidable (t.Aligned text)
  | .node _ _ _ _ _ _ children =>
    have := decidableAlignedAll text children
    inferInstanceAs (Decidable (_ ∧ _ ∧ _))

instance decidableAlignedAll (text : String) :
    ∀ ts : List SyntaxTree, Decidable (AlignedAll text ts)
  | [] => inferInstanceAs (Decidable True)
  | t :: ts =>
    have := decidableAligned text t
    have := decidableAlignedAll text ts
    inferInstanceAs (Decidable (_ ∧ _))

end

variable {text : String}

theorem aligned_iff {t : SyntaxTree} : t.Aligned text ↔
    Boundary text t.start ∧ Boundary text t.stop ∧ AlignedAll text t.children := by
  cases t
  rfl

theorem AlignedAll.throughout {Q : SyntaxTree → NodeId → Prop} : ∀ {ts : List SyntaxTree} {n : Nat},
    AlignedAll text ts → ThroughoutAll Q ts n →
    ThroughoutAll (fun t m => Q t m ∧ Boundary text t.start ∧ Boundary text t.stop) ts n
  | [], _, _, _ => trivial
  | t :: ts, n, ha, h => by
    have := count_eq t
    obtain ⟨hstart, hstop, hbelow⟩ := aligned_iff.1 ha.1
    exact ⟨throughout_iff.2 ⟨⟨h.1.here, hstart, hstop⟩, AlignedAll.throughout hbelow h.1.below⟩,
      AlignedAll.throughout ha.2 h.2⟩
termination_by ts => countAll ts
decreasing_by
  all_goals
    simp only [countAll]
    omega

end SyntaxTree

/-! ## Spans at boundaries -/

namespace Forest

variable {f g : Forest} {text : String}

/-- The node has a span, and its offsets are boundaries of the text. -/
def Spans (f : Forest) (text : String) (n : NodeId) : Prop :=
  ∃ a b : Nat, (f.node n).span = some ((a : Int), (b : Int)) ∧ Boundary text a ∧ Boundary text b

/-- Where a node has a snapshot, its span and those of its former children fit its source. -/
def Sound (f : Forest) : Prop :=
  ∀ m snapshot, (f.node m).snapshot = some snapshot →
    ∃ stamp text, (f.node m).source = some (.ofText stamp text) ∧ f.Spans text m ∧
      ∀ c ∈ snapshot.children, f.Spans text c

theorem Spans.lt_size {n : Nat} (h : f.Spans text n) : n < f.size := by
  obtain ⟨a, b, hspan, -⟩ := h
  by_contra hn
  rw [node_eq_default (Nat.le_of_not_lt hn)] at hspan
  cases hspan

theorem Spans.remembered {n : Nat} (h : f.Spans text n) (hr : f.Remembers g) :
    g.Spans text n := by
  have hkept := hr.span h.lt_size
  obtain ⟨a, b, hspan, hab⟩ := h
  exact ⟨a, b, hkept.trans hspan, hab⟩

theorem sound_empty : Sound .empty := by
  intro m snapshot hs
  rw [node_eq_default (Nat.zero_le m)] at hs
  cases hs

/-- What fits stays so wherever nodes remember, if those that came fit. -/
theorem Sound.remembered (h : f.Sound) (hr : f.Remembers g)
    (hnew : ∀ m snapshot, f.size ≤ m → (g.node m).snapshot = some snapshot →
      ∃ stamp text, (g.node m).source = some (.ofText stamp text) ∧ g.Spans text m ∧
        ∀ c ∈ snapshot.children, g.Spans text c) : g.Sound := by
  intro m snapshot hs
  by_cases hm : m < f.size
  · rw [hr.snapshot hm] at hs
    obtain ⟨stamp, text, hsource, hspans, hformer⟩ := h m snapshot hs
    exact ⟨stamp, text, (hr.source hm).trans hsource, hspans.remembered hr,
      fun c hc => (hformer c hc).remembered hr⟩
  · exact hnew m snapshot (Nat.le_of_not_lt hm) hs

theorem Sound.step (h : f.Sound) (hs : f.Step g) : g.Sound := by
  refine h.remembered hs.remembers fun m snapshot hm hsnap => ?_
  rw [hs.snapshot_new hm] at hsnap
  cases hsnap

theorem Sound.plant {stamp : Nat} {t : SyntaxTree} {root : Nat} (h : f.Sound)
    (ha : t.Aligned text) (hr : t.Rooted (.ofText stamp text) f g root) : g.Sound := by
  have hcount := t.count_eq
  have htrees := (SyntaxTree.aligned_iff.1 ha).2.2.throughout hr.trees
  have hspans : ∀ {m : Nat}, root + 1 ≤ m → m < root + 1 + SyntaxTree.countAll t.children →
      g.Spans text m := by
    intro m h1 h2
    obtain ⟨t', ht', -⟩ := htrees.at h1 h2
    obtain ⟨⟨u, -, hn⟩, hstart, hstop⟩ := ht'.here
    exact ⟨t'.start, t'.stop, by rw [hn]; rfl, hstart, hstop⟩
  refine h.remembered hr.remembers fun m snapshot hm hsnap => ⟨stamp, text, ?_⟩
  have hlt : m < root + t.count := by
    by_contra hge
    rw [node_eq_default (by have := hr.size; have := hr.root_eq; omega)] at hsnap
    cases hsnap
  by_cases hroot : m = root
  · -- the root spans the whole text, whatever the offsets of its tree
    subst hroot
    obtain ⟨u, -, hn⟩ := hr.top
    rw [hn] at hsnap
    cases hsnap
    refine ⟨by rw [hn]; rfl, ⟨0, text.toUTF8.size, by rw [hn]; rfl, boundary_zero text,
      boundary_size text⟩, fun c hc => ?_⟩
    obtain ⟨h1, h2⟩ := SyntaxTree.mem_rootIds hc
    exact hspans h1 h2
  · have hlow : root + 1 ≤ m := by have := hr.root_eq; omega
    obtain ⟨t', ht', hle⟩ := htrees.at hlow (by omega)
    obtain ⟨⟨u, -, hn⟩, -⟩ := ht'.here
    have hcount' := t'.count_eq
    rw [hn] at hsnap
    cases hsnap
    refine ⟨by rw [hn]; rfl, hspans hlow (by omega), fun c hc => ?_⟩
    obtain ⟨h1, h2⟩ := SyntaxTree.mem_rootIds hc
    exact hspans (by omega) (by omega)

/-! ## Every slice is there -/

theorem Spans.spanOf {n : NodeId} (h : f.Spans text n) :
    ∃ a b : Nat, f.spanOf n = .ok ((a : Int), (b : Int)) ∧ Boundary text a ∧ Boundary text b := by
  obtain ⟨a, b, hspan, hab⟩ := h
  exact ⟨a, b, by simp [Forest.spanOf, hspan], hab⟩

end Forest

theorem lt_of_lastPosition? {nodes : List NodeId} {n : NodeId} {k : Nat}
    (h : lastPosition? nodes n = some k) : k < nodes.length := by
  unfold lastPosition? at h
  obtain ⟨i, hi, rfl⟩ := Option.map_eq_some_iff.1 h
  have hmem : n ∈ nodes.reverse := by
    rw [← List.isSome_idxOf?, hi]
    rfl
  have := List.length_pos_of_mem hmem
  rw [List.length_reverse] at this
  omega

namespace Printer

variable {f : Forest} {text : String} {former : List NodeId}

theorem exists_formerGap (hs : ∀ c ∈ former, f.Spans text c) (stamp : Nat) {k : Nat}
    (hk : k + 1 < former.length) :
    ∃ u, formerGap f (.ofText stamp text) former k = .ok u := by
  obtain ⟨a, b, hab, -, hb⟩ := (hs former[k] (List.getElem_mem _)).spanOf
  obtain ⟨c, d, hcd, hc, -⟩ := (hs former[k + 1] (List.getElem_mem _)).spanOf
  obtain ⟨u, hu⟩ := hb.exists_slice hc stamp
  refine ⟨u, ?_⟩
  simp [formerGap, List.getElem?_eq_getElem hk, List.getElem?_eq_getElem (Nat.lt_of_succ_lt hk),
    hab, hcd, hu]

theorem exists_gap (p : Printer) (hs : ∀ c ∈ former, f.Spans text c) (stamp : Nat) {count i : Nat}
    (hi : i + 1 < count) (prev cur : NodeId) :
    ∃ u, p.gap f (.ofText stamp text) former count (i + 1) prev cur = .ok u := by
  have hbefore : ∃ u, gap.before p f (.ofText stamp text) former prev cur = .ok u := by
    unfold gap.before
    split
    · rename_i k hk
      exact exists_formerGap hs stamp (lt_of_lastPosition? hk)
    · exact ⟨_, rfl⟩
  unfold gap
  split_ifs with hlen
  · exact exists_formerGap hs stamp (by omega)
  · split
    · split_ifs with hk
      · exact exists_formerGap hs stamp hk
      · exact hbefore
    · exact hbefore

end Printer

namespace Forest.Sound

variable {f : Forest}

theorem exists_verbatim (h : f.Sound) {n : NodeId} {snapshot : Snapshot}
    (hs : (f.node n).snapshot = some snapshot) : ∃ u, f.verbatim n = .ok u := by
  obtain ⟨stamp, text, hsource, ⟨a, b, hspan, ha, hb⟩, -⟩ := h n snapshot hs
  obtain ⟨u, hu⟩ := ha.exists_slice hb stamp
  exact ⟨u, by simp [verbatim, hsource, hspan, hu]⟩

theorem exists_framed (h : f.Sound) (p : Printer) {n : NodeId} {snapshot : Snapshot}
    (hs : (f.node n).snapshot = some snapshot) :
    ∃ leading gap trailing, p.Framed f n leading gap trailing := by
  obtain ⟨stamp, text, hsource, ⟨a, b, hspan, ha, hb⟩, hformer⟩ := h n snapshot hs
  have hchildren : (f.node n).formerChildren = snapshot.children := by
    simp [Node.formerChildren, hs]
  have hleading : ∃ u, f.leading n = .ok u := by
    simp only [leading, hsource, hspan, hchildren]
    rcases hhead : snapshot.children.head? with _ | first
    · exact ⟨_, rfl⟩
    · obtain ⟨c, d, hcd, hc, -⟩ := (hformer first (List.mem_of_head? hhead)).spanOf
      obtain ⟨u, hu⟩ := ha.exists_slice hc stamp
      exact ⟨u, by simp [hcd, hu]⟩
  have htrailing : ∃ u, f.trailing n = .ok u := by
    simp only [trailing, hsource, hspan, hchildren]
    rcases hlast : snapshot.children.getLast? with _ | last
    · exact ⟨_, rfl⟩
    · obtain ⟨c, d, hcd, -, hd⟩ := (hformer last (List.mem_of_getLast? hlast)).spanOf
      obtain ⟨u, hu⟩ := hd.exists_slice hb stamp
      exact ⟨u, by simp [hcd, hu]⟩
  obtain ⟨leading, hleading⟩ := hleading
  obtain ⟨trailing, htrailing⟩ := htrailing
  refine ⟨leading, fun i prev cur => told (p.gapIn f n i prev cur), trailing, hleading, ?_,
    htrailing⟩
  intro i prev cur _ hcur
  have hi := (List.getElem?_eq_some_iff.1 hcur).1
  apply eq_ok_told
  simp only [Printer.gapIn, hsource, hchildren]
  exact p.exists_gap hformer stamp hi prev cur

/-- Where spans fit their sources, no slice fails. -/
theorem legible (h : f.Sound) (p : Printer) (n : NodeId) : p.Legible f n := by
  refine fun m _ => ⟨fun hu => ?_, fun _ _ hp => ?_⟩
  · have hmod := hu m (.refl m)
    unfold Node.isModified at hmod
    split at hmod
    · cases hmod
    · rename_i snapshot hs
      exact h.exists_verbatim hs
  · obtain ⟨_, _, _, _, hsnap⟩ := Node.isParsed_iff.1 hp
    obtain ⟨snapshot, hs⟩ := Option.isSome_iff_exists.1 hsnap
    exact h.exists_framed p hs

end Forest.Sound

theorem Worked.sound {η : Type} {w₀ w : Workspace η}
    (h : Worked (fun text t => t.Aligned text) w₀ w) (h₀ : w₀.document.forest.Sound) :
    w.document.forest.Sound :=
  h.invariant (fun ha hr hf => hf.plant ha hr) (fun hs hf => hf.step hs) h₀

/-- Whatever was parsed, made and edited, an acyclic node is printed, with a base text and without,
and no lookup of a flag misses. -/
theorem print_worked {η : Type} {w₀ w : Workspace η} (h₀ : w₀.document.forest = .empty)
    (hw : Worked (fun text t => t.Aligned text) w₀ w) {n : NodeId}
    (hac : w.document.forest.Acyclic n) (p : Printer) (base : Option Source) :
    ∃ out, p.print w.document.forest n base = .ok out ∧
      (base.isSome = true → p.checkedPrint w.document.forest n = .ok out) := by
  cases base with
  | none =>
    obtain ⟨out, hout⟩ := Printer.exists_plainSpelled (p := p) _ hac.within
    exact ⟨out, by rw [p.print_none hac, hout.plainTextOf hac], by simp⟩
  | some base =>
    have hsound := hw.sound (h₀ ▸ Forest.sound_empty)
    obtain ⟨out, hout⟩ := Printer.exists_spelled _ hac.within (hsound.legible p n)
    have hprint : p.print w.document.forest n (some base) = .ok out := by
      rw [p.print_some hac, hout.textOf hac]
    exact ⟨out, hprint, fun _ => by rw [p.checkedPrint_eq hac base, hprint]⟩

/-- A name is parsed beside the pair. -/
def nameParsed : Workspace Unit :=
  (perform (Work.parse 0 "ü") pairParsed).2

theorem worked_nameParsed : Worked (fun text t => t.Aligned text) pairParsed nameParsed := by
  have hname : perform (Work.parse 0 "ü") pairParsed = (.ok 3, nameParsed) :=
    perform_eq_of_toOption (by decide +kernel)
  have haligned : ((pairParsed.grammars.tree (pairParsed.parsers.getD 0 default).language "ü").all
      fun parsed => decide (parsed.root.Aligned "ü")) = true := by decide +kernel
  refine .parse .start hname fun parsed h => ?_
  rw [h] at haligned
  exact of_decide_eq_true haligned

/-- In the place of the pair's second name stand a new comma and twice the other name; the second
name has moved to the front, and the first has lost its text. -/
def pairMixed : Workspace Unit :=
  (perform (Work.edit (Edit.modifyNode 1 fun x => { x with text := none }))
    (perform (Work.edit (Edit.insertChild 0 0 2))
      (perform (Work.edit (Edit.replace 1 [4, 3, 3]))
        (perform (Work.edit (Edit.child 0 1))
          (perform (Work.edit (Edit.addRoot 0))
            (perform (Work.edit (Edit.addNode (.leaf "," "," false)))
              nameParsed).2).2).2).2).2).2

theorem print_worked_pair :
    Worked (fun text t => t.Aligned text) pairWorkspace pairMixed ∧
      pairMixed.document.forest.Acyclic 0 ∧
      (⟨"_"⟩ : Printer).checkedPrint pairMixed.document.forest 0 = .ok "é_ ,_ü_ü" := by
  have hpair : Worked (fun text t => t.Aligned text) pairWorkspace pairParsed :=
    .parse .start parse_pair fun parsed h => by
      cases h
      decide +kernel
  have hw : Worked (fun text t => t.Aligned text) pairWorkspace pairMixed :=
    .edit (.edit (.edit (.edit (.edit (.edit (hpair.trans worked_nameParsed) (.addNode rfl))
      (.addRoot 0)) (.child 0 1)) (.replace 1 [4, 3, 3])) (.insertChild 0 0 2))
      (.modifyNode 1 fun _ => rfl)
  have hac : pairMixed.document.forest.Acyclic 0 :=
    Forest.Within.acyclic (k := 2) (by decide +kernel)
  have htext : (⟨"_"⟩ : Printer).textOf pairMixed.document.forest 0 = .ok "é_ ,_ü_ü" :=
    eq_ok_of_toOption (by decide +kernel)
  obtain ⟨out, hout, hchecked⟩ := print_worked rfl hw hac ⟨"_"⟩ (some default)
  rw [Printer.print_some _ hac, htext] at hout
  cases hout
  exact ⟨hw, hac, hchecked rfl⟩

end Retouch
