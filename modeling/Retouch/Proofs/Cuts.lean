import Retouch.Proofs.Rebuilding
import Retouch.Proofs.Standing

/-!
# What pruning deletes

A pruned node goes with its span and with one gap: the gap that follows it if a later sibling stays,
otherwise the gap that precedes it, if there is one (`SyntaxTree.cut`). The printer does not know
this rule. It puts the gap behind each child that stays in front of the next one, so the cuts of the
siblings in between have to meet (`follows`); where no child stays, they meet between the leading
and the trailing text.
-/

namespace Retouch

namespace SyntaxTree

/-- Whether one of several trees, numbered from `n` on, stays. -/
def someStays (gone : NodeId → Bool) (n : NodeId) (ts : List SyntaxTree) : Bool :=
  (rootIds n ts).any fun c => !gone c

/-- What goes with a pruned tree. The sibling before it ends at `before`; those behind it are
numbered from `n` on. -/
def cut (gone : NodeId → Bool) (before : Option Nat) (t : SyntaxTree) (n : NodeId) :
    List SyntaxTree → Patch
  | [] => ⟨before.getD t.start, t.stop, .empty⟩
  | next :: rest =>
    if someStays gone n (next :: rest) then ⟨t.start, next.start, .empty⟩
    else ⟨before.getD t.start, t.stop, .empty⟩

mutual

/-- What goes from a tree at `n` that stays itself. -/
def cuts (gone : NodeId → Bool) : SyntaxTree → NodeId → List Patch
  | .node _ _ _ _ _ _ children, n => cutsAll gone children none (n + 1)

/-- What goes from siblings numbered from `n` on, the one before them ending at `before`. -/
def cutsAll (gone : NodeId → Bool) : List SyntaxTree → Option Nat → NodeId → List Patch
  | [], _, _ => []
  | t :: ts, before, n =>
    (if gone n then [cut gone before t (n + t.count) ts] else cuts gone t n) ++
      cutsAll gone ts (some t.stop) (n + t.count)

end

variable {gone : NodeId → Bool} {text : String}

theorem cuts_eq (t : SyntaxTree) (n : NodeId) :
    t.cuts gone n = cutsAll gone t.children none (n + 1) := by
  cases t
  rfl

theorem someStays_cons (n : NodeId) (t : SyntaxTree) (ts : List SyntaxTree) :
    someStays gone n (t :: ts) = (!gone n || someStays gone (n + t.count) ts) := rfl

theorem cut_of_stays {before : Option Nat} {t next : SyntaxTree} {n : NodeId}
    {rest : List SyntaxTree} (h : someStays gone n (next :: rest) = true) :
    cut gone before t n (next :: rest) = ⟨t.start, next.start, .empty⟩ :=
  if_pos h

theorem cut_of_none {before : Option Nat} {t : SyntaxTree} {n : NodeId} :
    ∀ {ts : List SyntaxTree}, someStays gone n ts = false →
    cut gone before t n ts = ⟨before.getD t.start, t.stop, .empty⟩
  | [], _ => rfl
  | _ :: _, h => if_neg (by simp [h])

theorem filter_of_none {n : NodeId} {ts : List SyntaxTree} (h : someStays gone n ts = false) :
    (rootIds n ts).filter (fun c => !gone c) = [] := by
  refine List.filter_eq_nil_iff.2 fun c hc => ?_
  simpa using List.any_eq_false.1 h c hc

/-- Where no sibling stays, all goes up to the end of the last. -/
theorem patched_cutsAll_none {data : ByteArray} {b : Nat} : ∀ {ts : List SyntaxTree} {n : NodeId}
    {a : Nat}, someStays gone n ts = false →
    patched data a b (cutsAll gone ts (some a) n) = data.extract (endOf a ts) b
  | [], _, _, _ => rfl
  | t :: ts, n, a, h => by
    rw [someStays_cons, Bool.or_eq_false_iff] at h
    have hn : gone n = true := by simpa using h.1
    have ih : patched data t.stop b (cutsAll gone ts (some t.stop) (n + t.count)) =
        data.extract (endOf t.stop ts) b := patched_cutsAll_none h.2
    simp only [cutsAll, hn, if_true, cut_of_none h.2, List.singleton_append, patched,
      Option.getD_some, ih]
    simp [endOf]

end SyntaxTree

/-! ## Children that stay -/

/-- The node in its position is the last of its kind. -/
theorem lastPosition?_eq {nodes : List NodeId} (hn : nodes.Nodup) {k : Nat} {n : NodeId}
    (h : nodes[k]? = some n) : lastPosition? nodes n = some k := by
  obtain ⟨hk, rfl⟩ := List.getElem?_eq_some_iff.1 h
  have hidx : nodes.reverse.idxOf? nodes[k] = some (nodes.length - 1 - k) := by
    unfold List.idxOf?
    rw [List.findIdx?_eq_some_iff_getElem]
    refine ⟨by simp; omega, ?_, fun j hj => ?_⟩
    · rw [List.getElem_reverse]
      simp only [beq_iff_eq]
      congr 1
      omega
    · rw [List.getElem_reverse]
      simp only [beq_iff_eq]
      rw [hn.getElem_inj_iff]
      omega
  rw [lastPosition?, hidx, Option.map_some]
  congr 1
  omega

section Gaps

variable (p : Printer) (f : Forest) (source : Source) (former : List NodeId) (count : Nat)
  (out : NodeId → Except Fault String) (tail : String)

/-- Children that follow `prev`, the gaps before them and the tail are written as these bytes. -/
def Gapped (prev : NodeId) (cs : List NodeId) (bytes : ByteArray) : Prop :=
  ∃ pieces, (∀ i, p.gappedAfter f source former count i prev cs = .ok pieces) ∧
    Writes (writeAll out (pieces ++ [.text tail])) bytes

variable {p f source former count out tail}

theorem Gapped.nil (prev : NodeId) :
    Gapped p f source former count out tail prev [] tail.toUTF8 := by
  refine ⟨[], fun _ => rfl, ?_⟩
  simpa using Writes.text (g := out) (s := tail) rfl Writes.nil

theorem Gapped.cons {prev c : NodeId} {cs : List NodeId} {s : String} {o bytes : ByteArray}
    (hs : ∀ i, p.gap f source former count i prev c = .ok s) (hc : Writes (out c) o)
    (h : Gapped p f source former count out tail c cs bytes) :
    Gapped p f source former count out tail prev (c :: cs) (s.toUTF8 ++ (o ++ bytes)) := by
  obtain ⟨pieces, hp, hw⟩ := h
  refine ⟨.text s :: .node c :: pieces, fun i => ?_, Writes.text rfl (Writes.node hc hw)⟩
  rw [Printer.gappedAfter, hs, ok_bind, hp]
  rfl

end Gaps

section Stay

variable {p : Printer} {text : String} {stamp : Nat} {f : Forest} {gone : NodeId → Bool}

open SyntaxTree

/-- The trees numbered from `n` on are written without what goes from them. -/
def CutBack (p : Printer) (text : String) (f : Forest) (gone : NodeId → Bool) (n : NodeId)
    (ts : List SyntaxTree) : Prop :=
  List.Forall₂ (fun c t => Overlaid p text f c t (t.cuts gone c)) (rootIds n ts) ts

theorem CutBack.inOrder : ∀ {ts : List SyntaxTree} {before : Option Nat} {n a b : Nat},
    CutBack p text f gone n ts → WellPlaced text a b ts →
    (someStays gone n ts = false → before = none ∨ before = some a) →
    InOrder a b (cutsAll gone ts before n)
  | [], _, _, _, _, _, hw, _ => hw
  | t :: ts, before, n, a, b, h, ⟨h1, h2, h3⟩, hbefore => by
    obtain ⟨ht, hts⟩ := List.forall₂_cons.1 h
    have hle := h2.le
    by_cases hn : gone n = true
    · simp only [cutsAll, hn, if_true, List.singleton_append]
      by_cases hs : someStays gone (n + t.count) ts = true
      · match ts, hs, h3, hts with
        | next :: rest, hs, h3, hts =>
          rw [cut_of_stays hs]
          refine ⟨h1, Nat.le_trans hle h3.1, CutBack.inOrder hts ⟨le_rfl, h3.2⟩ fun hnone => ?_⟩
          rw [hs] at hnone
          cases hnone
      · rw [Bool.not_eq_true] at hs
        rw [cut_of_none hs]
        refine ⟨?_, ?_, CutBack.inOrder hts h3 fun _ => .inr rfl⟩
        all_goals
          rcases hbefore (by simp [someStays_cons, hn, hs]) with rfl | rfl
          · simpa using ‹_›
          · simp only [Option.getD_some]
            omega
    · simp only [cutsAll, hn, Bool.false_eq_true, if_false]
      exact (ht.inOrder.mono_left h1).append (CutBack.inOrder hts h3 fun _ => .inr rfl)

variable {former : List NodeId} {count b : Nat} {tail : String}

/-- The first child that stays and those behind it are written from the start of the first child on,
whether that stays or not. -/
def Leads (p : Printer) (text : String) (stamp : Nat) (f : Forest) (gone : NodeId → Bool)
    (former : List NodeId) (count b : Nat) (tail : String) (n : NodeId) (ts : List SyntaxTree) :
    Prop :=
  ∀ t us, ts = t :: us → someStays gone n ts = true → ∃ c cs o bytes,
    (rootIds n ts).filter (fun c => !gone c) = c :: cs ∧ Writes (p.textOf f c) o ∧
    Gapped p f (.ofText stamp text) former count (p.textOf f) tail c cs bytes ∧
    ∀ before, patched text.toUTF8 t.start b (cutsAll gone ts before n) = o ++ bytes

/-- The children that stay behind one that stays are written from its end on. -/
theorem follows (hcount : former.length ≠ count) (hnodup : former.Nodup) {n k : Nat}
    {prev : NodeId} {t : SyntaxTree} {us : List SyntaxTree} {ts : List SyntaxTree}
    (hm : List.Forall₂ (Marks (.ofText stamp text) f) former ts) (hprev : former[k]? = some prev)
    (ht : ts[k]? = some t) (hus : ts.drop (k + 1) = us) (hstop : Boundary text t.stop)
    (hw : WellPlaced text t.stop b us) (hcut : CutBack p text f gone n us)
    (htail : tail.toUTF8 = text.toUTF8.extract (endOf t.stop us) b)
    (hlead : Leads p text stamp f gone former count b tail n us) :
    Gapped p f (.ofText stamp text) former count (p.textOf f) tail prev
      ((rootIds n us).filter fun c => !gone c)
      (patched text.toUTF8 t.stop b (cutsAll gone us (some t.stop) n)) := by
  by_cases hs : someStays gone n us = true
  · match us, hs, hw, hcut, htail, hlead, hus with
    | u :: us, hs, hw, hcut, htail, hlead, hus =>
      obtain ⟨c, cs, o, bytes, hfilter, hc, hg, heq⟩ := hlead u us rfl hs
      have hu : ts[k + 1]? = some u := by
        rw [← List.getElem?_drop (i := k + 1) (j := 0), hus]
        rfl
      have hlt : k + 1 < former.length := by
        rw [hm.length_eq]
        exact (List.getElem?_eq_some_iff.1 hu).1
      obtain ⟨s, hslice, hbytes⟩ := hstop.writes_slice stamp (wellFormed_iff.1 hw.2.1).1 hw.1
      have hgap : ∀ i, p.gap f (.ofText stamp text) former count i prev c = .ok s := by
        intro i
        unfold Printer.gap
        rw [if_neg hcount, lastPosition?_eq hnodup hprev]
        simp only [hlt, if_true]
        rw [formerGap_eq hm ht hu, hslice]
      have horder : InOrder u.start b (cutsAll gone (u :: us) (some t.stop) n) :=
        hcut.inOrder ⟨le_rfl, hw.2⟩ fun hnone => by
          rw [hs] at hnone
          cases hnone
      rw [hfilter, ← extract_append_patched hw.1 horder, heq, ← hbytes]
      exact .cons hgap hc hg
  · rw [Bool.not_eq_true] at hs
    rw [filter_of_none hs, patched_cutsAll_none hs, ← htail]
    exact .nil prev

theorem leads (hcount : former.length ≠ count) (hnodup : former.Nodup) {ts : List SyntaxTree}
    (hm : List.Forall₂ (Marks (.ofText stamp text) f) former ts) : ∀ {us : List SyntaxTree}
    {n k a : Nat}, ts.drop k = us → former.drop k = rootIds n us → WellPlaced text a b us →
    CutBack p text f gone n us → tail.toUTF8 = text.toUTF8.extract (endOf a us) b →
    Leads p text stamp f gone former count b tail n us
  | [], _, _, _, _, _, _, _, _ => fun _ _ h => by cases h
  | t :: us, n, k, a, hus, hids, ⟨_, h2, h3⟩, hcut, htail => by
    intro _ _ heq hs
    cases heq
    obtain ⟨ht, hcuts⟩ := List.forall₂_cons.1 hcut
    have hus' : ts.drop (k + 1) = us := by rw [← List.drop_drop, hus]; rfl
    have hids' : former.drop (k + 1) = rootIds (n + t.count) us := by
      rw [← List.drop_drop, hids]
      rfl
    have ih : Leads p text stamp f gone former count b tail (n + t.count) us :=
      leads hcount hnodup hm hus' hids' h3 hcuts htail
    by_cases hn : gone n = true
    · rw [someStays_cons, hn, Bool.not_true, Bool.false_or] at hs
      match us, hs, ih with
      | u :: us, hs, ih =>
        obtain ⟨c, cs, o, bytes, hfilter, hc, hg, heq⟩ := ih u us rfl hs
        refine ⟨c, cs, o, bytes, ?_, hc, hg, fun before => ?_⟩
        · rw [rootIds, List.filter_cons, if_neg (by simp [hn]), hfilter]
        · rw [cutsAll, if_pos hn, cut_of_stays hs, List.singleton_append, patched, heq]
          simp
    · rw [Bool.not_eq_true] at hn
      have hprev : former[k]? = some n := by
        rw [← Nat.add_zero k, ← List.getElem?_drop, hids]
        rfl
      have hk : ts[k]? = some t := by
        rw [← Nat.add_zero k, ← List.getElem?_drop, hus]
        rfl
      refine ⟨n, _, _, _, ?_, ht.writes, follows hcount hnodup hm hprev hk hus'
        (wellFormed_iff.1 h2).2.1 h3 hcuts htail ih, fun before => ?_⟩
      · rw [rootIds, List.filter_cons, if_pos (by simp [hn])]
      · rw [cutsAll, if_neg (by simp [hn])]
        exact patched_append ht.inOrder (CutBack.inOrder hcuts h3 fun _ => .inr rfl)

/-! ## A node with pruned children -/

/-- A node some of whose children were pruned is written without what goes from it. -/
theorem rebuilt_pruned {node : Node} {t : SyntaxTree} {n : Nat} (ht : t.WellFormed text)
    (hformer : node.formerChildren = rootIds (n + 1) t.children)
    (hm : List.Forall₂ (Marks (.ofText stamp text) f) (rootIds (n + 1) t.children) t.children)
    (hchildren : node.children = (rootIds (n + 1) t.children).filter fun c => !gone c)
    (hlen : t.children.length ≠ node.children.length)
    (hcut : CutBack p text f gone (n + 1) t.children) :
    Writes (p.rebuilt f node (.ofText stamp text) (t.start, t.stop) >>= writeAll (p.textOf f))
      (patched text.toUTF8 t.start t.stop (t.cuts gone n)) := by
  obtain ⟨t', us, hc⟩ := List.exists_cons_of_ne_nil (show t.children ≠ [] by
    intro hc
    simp [hc, rootIds, hchildren] at hlen)
  have hplaced := (wellFormed_iff.1 ht).2.2
  rw [cuts_eq]
  rw [hc] at hm hplaced hlen hcut hchildren hformer ⊢
  obtain ⟨leading, trailing, hleading, htrailing, hr⟩ := rebuilt_eq p ht hc hformer hm
  rw [hr]
  by_cases hs : someStays gone (n + 1) (t' :: us) = true
  · have hcount : (rootIds (n + 1) (t' :: us)).length ≠ node.children.length := by
      rwa [length_rootIds]
    have hlead : Leads p text stamp f gone (rootIds (n + 1) (t' :: us)) node.children.length t.stop
        trailing (n + 1) (t' :: us) :=
      leads (k := 0) hcount (nodup_rootIds _ _) hm rfl rfl hplaced hcut htrailing
    obtain ⟨c, cs, o, bytes, hfilter, ho, ⟨pieces, hp, hw⟩, heq⟩ := hlead t' us rfl hs
    have hgapped : p.gapped f (.ofText stamp text) (rootIds (n + 1) (t' :: us)) node.children =
        .ok (.node c :: pieces) := by
      rw [hchildren, hfilter] at hp ⊢
      rw [Printer.gapped, hp 1]
      rfl
    have horder : InOrder t'.start t.stop (cutsAll gone (t' :: us) none (n + 1)) :=
      hcut.inOrder ⟨le_rfl, hplaced.2⟩ fun _ => .inl rfl
    rw [hgapped, ← extract_append_patched hplaced.1 horder, heq none, ← hleading]
    exact Writes.text rfl (Writes.node ho hw)
  · rw [Bool.not_eq_true] at hs
    have hnone : node.children = [] := by rw [hchildren, filter_of_none hs]
    rw [someStays_cons, Bool.or_eq_false_iff] at hs
    have hn : gone (n + 1) = true := by simpa using hs.1
    have heq : patched text.toUTF8 t.start t.stop (cutsAll gone (t' :: us) none (n + 1)) =
        leading.toUTF8 ++ ByteArray.empty ++ trailing.toUTF8 := by
      rw [cutsAll, if_pos hn, cut_of_none hs.2, List.singleton_append, patched,
        patched_cutsAll_none hs.2, hleading, htrailing]
      rfl
    rw [hnone, Printer.gapped, heq]
    have := Writes.text (g := p.textOf f) (s := leading) rfl
      (Writes.text (s := trailing) rfl Writes.nil)
    simpa using this

/-- Where all siblings stay, what goes is what goes from each. -/
theorem flatten_cuts : ∀ {ts : List SyntaxTree} {n : Nat} (before : Option Nat),
    (∀ c ∈ rootIds n ts, gone c = false) →
    (List.zipWith (fun c t => t.cuts gone c) (rootIds n ts) ts).flatten = cutsAll gone ts before n
  | [], _, _, _ => rfl
  | t :: ts, n, before, h => by
    obtain ⟨hn, h⟩ := List.forall_mem_cons.1 h
    rw [rootIds, List.zipWith_cons_cons, List.flatten_cons, flatten_cuts (some t.stop) h, cutsAll,
      if_neg (by simp [hn])]

theorem CutBack.zip : ∀ {ts : List SyntaxTree} {n : Nat}, CutBack p text f gone n ts →
    List.Forall₂ (fun c e => Overlaid p text f c e.1 e.2) (rootIds n ts)
      (ts.zip (List.zipWith (fun c t => t.cuts gone c) (rootIds n ts) ts))
  | [], _, _ => .nil
  | _ :: _, _, h => .cons (List.forall₂_cons.1 h).1 (CutBack.zip (List.forall₂_cons.1 h).2)

/-- An inner node is written without what goes from it, whether any of its children was pruned or
not. -/
theorem Overlaid.of_pruned {n : Nat} {t : SyntaxTree} (ht : t.WellFormed text)
    (hne : t.children ≠ []) (hn : Marks (.ofText stamp text) f n t)
    (htext : (f.node n).text = none)
    (hsnap : (f.node n).snapshot = some ⟨none, rootIds (n + 1) t.children⟩)
    (hm : List.Forall₂ (Marks (.ofText stamp text) f) (rootIds (n + 1) t.children) t.children)
    (hchildren : (f.node n).children = (rootIds (n + 1) t.children).filter fun c => !gone c)
    (hcut : CutBack p text f gone (n + 1) t.children) : Overlaid p text f n t (t.cuts gone n) := by
  have hac : f.Acyclic n := .of_children fun c hc => by
    rw [hchildren] at hc
    obtain ⟨i, hi, rfl⟩ := List.getElem_of_mem (List.mem_of_mem_filter hc)
    exact (List.Forall₂.get hcut hi (by simpa using hi)).acyclic
  have hformer : (f.node n).formerChildren = rootIds (n + 1) t.children := by
    simp [Node.formerChildren, hsnap]
  by_cases hlen : t.children.length = (f.node n).children.length
  · -- all children stay, so each still has its slot
    have hstay : ∀ c ∈ rootIds (n + 1) t.children, gone c = false := by
      rw [hchildren, ← length_rootIds (n + 1), eq_comm, List.length_filter_eq_length_iff] at hlen
      simpa using hlen
    have hsame : (f.node n).children = rootIds (n + 1) t.children := by
      rw [hchildren, List.filter_eq_self]
      simpa using hstay
    rw [cuts_eq, ← flatten_cuts none hstay]
    refine Overlaid.of_children p ht hne hn htext hsnap hm ?_ ?_
    · simp
    · rw [hsame]
      exact hcut.zip
  · have hpristine : ¬ f.isPristine n = true := by
      intro hp
      rw [children_of_isPristine hac hp hsnap, length_rootIds] at hlen
      exact hlen rfl
    refine ⟨?_, hac, ?_⟩
    · rw [cuts_eq]
      exact hcut.inOrder (wellFormed_iff.1 ht).2.2 fun _ => .inl rfl
    · rw [textOf_rebuilt p hn htext hsnap hac hpristine]
      exact rebuilt_pruned ht hformer hm hchildren hlen hcut

end Stay

/-! ## Pruned trees -/

/-- The nodes that stand below `root` in `g` have lost the children that are gone. -/
structure Thinned (g f : Forest) (root : NodeId) (gone : NodeId → Bool) : Prop where
  node : ∀ m, g.Below root m → ∃ fields,
    fields.length = ((g.node m).children.filter fun c => !gone c).length ∧
    f.node m = { g.node m with
      children := (g.node m).children.filter fun c => !gone c
      fields := fields }

namespace Thinned

open SyntaxTree

variable {p : Printer} {text : String} {stamp : Nat} {g f : Forest} {root : Nat}
  {gone : NodeId → Bool}

theorem marks (h : Thinned g f root gone) {source : Source} {t : SyntaxTree} {n : Nat}
    (hs : t.Stands source g n) (hn : g.Below root n) : Marks source f n t := by
  obtain ⟨u, -, hg⟩ := hs
  obtain ⟨fields, -, hf⟩ := h.node n hn
  unfold Marks
  rw [hf, hg]
  exact ⟨rfl, rfl⟩

theorem overlaid_inner (h : Thinned g f root gone) {t : SyntaxTree} {n : Nat}
    (hs : t.Stands (.ofText stamp text) g n) (ht : t.WellFormed text) (hr : g.Below root n)
    (hc : t.children ≠ [])
    (hm : List.Forall₂ (Marks (.ofText stamp text) f) (rootIds (n + 1) t.children) t.children)
    (hcut : CutBack p text f gone (n + 1) t.children) : Overlaid p text f n t (t.cuts gone n) := by
  have hmarks := h.marks hs hr
  obtain ⟨fields, -, hf⟩ := h.node n hr
  rw [hs.inner hc] at hf
  refine .of_pruned ht hc hmarks ?_ ?_ hm ?_ hcut <;> rw [hf] <;> rfl

theorem overlaid_leaf (h : Thinned g f root gone) {t : SyntaxTree} {n : Nat}
    (hs : t.Stands (.ofText stamp text) g n) (ht : t.WellFormed text) (hr : g.Below root n)
    (hc : t.children = []) : Overlaid p text f n t (t.cuts gone n) := by
  have hmarks := h.marks hs hr
  obtain ⟨v, hv, hbytes, hg⟩ := hs.leaf ht hc
  obtain ⟨fields, -, hf⟩ := h.node n hr
  rw [hg] at hf
  have hac : f.Acyclic n := .of_children fun c hm => by
    rw [hf] at hm
    simp [grown, hc, rootIds] at hm
  have htext : (f.node n).text = some v := by rw [hf]; rfl
  have hsnap : (f.node n).snapshot = some ⟨some v, rootIds (n + 1) t.children⟩ := by rw [hf]; rfl
  rw [cuts_eq, hc]
  exact ⟨ht.le, hac, v, textOf_leaf p hmarks htext hsnap hv hac, hbytes⟩

/-- Every tree of the parse is written without what goes from it. -/
theorem overlaid_all (h : Thinned g f root gone) : ∀ {ts : List SyntaxTree} {n a b : Nat},
    ThroughoutAll (Stands (.ofText stamp text) g) ts n →
    (∀ m, n ≤ m → m < n + countAll ts → g.Below root m) → WellPlaced text a b ts →
    List.Forall₂ (Marks (.ofText stamp text) f) (rootIds n ts) ts ∧ CutBack p text f gone n ts
  | [], _, _, _, _, _, _ => ⟨.nil, .nil⟩
  | t :: ts, n, a, b, hs, hin, ⟨_, h2, h3⟩ => by
    have ht := count_eq t
    simp only [countAll] at hin
    have hr := hin n le_rfl (by omega)
    obtain ⟨hm, hcut⟩ := overlaid_all h hs.1.below (fun m h1 h2 => hin m (by omega) (by omega))
      (wellFormed_iff.1 h2).2.2
    obtain ⟨hms, hcuts⟩ := overlaid_all h hs.2 (fun m h1 h2 => hin m (by omega) (by omega)) h3
    refine ⟨.cons (h.marks hs.1.here hr) hms, .cons ?_ hcuts⟩
    by_cases hc : t.children = []
    · exact h.overlaid_leaf hs.1.here h2 hr hc
    · exact h.overlaid_inner hs.1.here h2 hr hc hm hcut
termination_by ts => countAll ts
decreasing_by
  all_goals
    simp only [countAll]
    omega

/-- The root, which has the span of the whole source, is written without what goes from it. -/
theorem overlaid_root (h : Thinned g f root gone) {t : SyntaxTree} {f₀ : Forest}
    (hg : t.Rooted (.ofText stamp text) f₀ g root) (ht : t.WellFormed text) :
    Overlaid p text f root (t.spanning text.toUTF8.size) (t.cuts gone root) := by
  have hcount := count_eq t
  have hr : g.Below root root := .refl root
  by_cases hc : t.children = []
  · obtain ⟨u, -, htop⟩ := hg.top
    obtain ⟨fields, -, hf⟩ := h.node root hr
    have hnode : f.node root = { g.node root with fields := fields } := by
      rw [hf, htop]
      simp [grown, hc, rootIds]
    rw [cuts_eq, hc]
    exact .of_bare_root p hg ht hc hnode
  · have hin : ∀ m, root + 1 ≤ m → m < root + 1 + countAll t.children → g.Below root m :=
      fun m h1 h2 => hg.branches.below_iff.2 (by omega)
    have hplaced := (wellFormed_iff.1 ht.spanning).2.2
    rw [children_spanning] at hplaced
    obtain ⟨hm, hcut⟩ := h.overlaid_all hg.trees hin hplaced
    have := h.overlaid_inner (p := p) (hg.stands hc) ht.spanning hr (by rwa [children_spanning])
    rw [cuts_eq] at this ⊢
    simp only [children_spanning] at this
    exact this hm hcut

end Thinned

end Retouch
