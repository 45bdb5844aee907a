import Retouch.Proofs.Coverage
import Retouch.Proofs.Unfailing

/-!
# Insertions lose nothing

Nodes may be put among the children of the inner nodes of a parse, at any place and by any edit that
takes nothing away from there: directly, or through a path whose node is replaced by nodes among
which it stands (`Inserted.replace`, `Inserted.insertChild`). Whatever else was parsed, made and
edited meanwhile, the parsed text is a subsequence of what the root prints as, and the children of a
node stand there side by side (`print_inserted`).
-/

namespace Retouch

/-- Below `root`, all that has become of the nodes of `g` is that inner nodes have further
children. -/
structure Forest.Inserted (g f : Forest) (root : NodeId) : Prop where
  text : ∀ m, g.Below root m → (f.node m).text = (g.node m).text
  leaf : ∀ m, g.Below root m → (g.node m).children = [] → (f.node m).children = []
  sublist : ∀ m, g.Below root m → (g.node m).children.Sublist (f.node m).children

/-- What is put in the place of an item and holds it itself takes nothing away. -/
theorem Slot.sublist_splice {α : Type} {items new : List α} {slot : Int} {x : α}
    (h : Slot.get? items slot = some x) (hx : x ∈ new) :
    items.Sublist (Slot.splice items slot (slot + 1) new) := by
  obtain ⟨i, hi, hget⟩ := Slot.get?_eq_some_iff.1 h
  have hlt := (List.getElem?_eq_some_iff.1 hget).1
  have hstart : Slot.bound items.length slot = i := by
    unfold Slot.bound
    omega
  simp only [Slot.splice, hstart]
  by_cases hlast : slot = -1
  · -- the end of the cut is then the front, so nothing is cut out
    have hstop : Slot.bound items.length (slot + 1) = 0 := by
      subst hlast
      simp [Slot.bound, Slot.fromFront]
    rw [hstop, Nat.max_eq_left (Nat.zero_le i), List.append_assoc]
    conv_lhs => rw [← List.take_append_drop i items]
    exact (List.sublist_append_right _ _).append_left _
  · have hstop : Slot.bound items.length (slot + 1) = i + 1 := by
      unfold Slot.bound Slot.fromFront at *
      split_ifs at * <;> omega
    rw [hstop, Nat.max_eq_right (Nat.le_succ i), List.append_assoc]
    conv_lhs => rw [← Slot.take_append_cons_drop hget, ← List.singleton_append]
    exact ((List.singleton_sublist.2 hx).append_right _).append_left _

theorem Slot.sublist_insert {α : Type} (items : List α) (slot : Int) (x : α) :
    items.Sublist (Slot.insert items slot x) := by
  simp only [Slot.insert, Slot.splice, Nat.max_self, List.append_assoc]
  conv_lhs => rw [← List.take_append_drop (Slot.bound items.length slot) items]
  exact (List.sublist_append_right _ _).append_left _

namespace Forest.Inserted

variable {g f f' : Forest} {root : NodeId}

theorem refl (g : Forest) (root : NodeId) : g.Inserted g root :=
  ⟨fun _ _ => rfl, fun _ _ h => h, fun _ _ => .refl _⟩

/-- Edits of other nodes do not count. -/
theorem elsewhere (h : g.Inserted f root) (hs : ∀ m, g.Below root m →
    (f'.node m).text = (f.node m).text ∧ (f'.node m).children = (f.node m).children) :
    g.Inserted f' root := by
  refine ⟨fun m hm => ?_, fun m hm => ?_, fun m hm => ?_⟩
  · rw [(hs m hm).1, h.text m hm]
  · rw [(hs m hm).2]
    exact h.leaf m hm
  · rw [(hs m hm).2]
    exact h.sublist m hm

theorem modify (h : g.Inserted f root) {n : Nat} {change : Node → Node}
    (ht : (change (f.node n)).text = (f.node n).text)
    (hl : (f.node n).children ≠ [] ∨ (g.node n).children ≠ [])
    (hs : (f.node n).children.Sublist (change (f.node n)).children) :
    g.Inserted (f.modify n change) root := by
  by_cases hn : n < f.size
  · refine ⟨fun m hm => ?_, fun m hm hnone => ?_, fun m hm => ?_⟩ <;>
      rw [node_modify _ _ _ _ hn] <;> split_ifs with heq
    · subst heq
      rw [ht, h.text m hm]
    · exact h.text m hm
    · subst heq
      exact absurd hnone (hl.resolve_left (not_not.2 (h.leaf m hm hnone)))
    · exact h.leaf m hm hnone
    · subst heq
      exact (h.sublist m hm).trans hs
    · exact h.sublist m hm
  · rwa [modify_eq_self (Nat.le_of_not_lt hn)]

/-- A path's node may be replaced by nodes among which it stands. -/
theorem replace {d : Document} (h : g.Inserted d.forest root) {p : PathId} {nodes : List NodeId}
    (hp : (d.path p).node ∈ nodes) :
    g.Inserted (perform (Edit.replace p nodes) d).2.forest root := by
  rcases Edit.forest_replace p nodes d with heq | ⟨q, slot, field, hget, heq⟩
  · rwa [heq]
  · rw [heq]
    refine h.modify rfl (.inl ?_) (Slot.sublist_splice hget hp)
    obtain ⟨i, -, hi⟩ := Slot.get?_eq_some_iff.1 hget
    exact List.ne_nil_of_mem (List.mem_of_getElem? hi)

/-- The child list of an inner node may be given further items. -/
theorem setChildren {d : Document} (h : g.Inserted d.forest root) {n : NodeId}
    {children : List NodeId} (hn : (g.node n).children ≠ [])
    (hs : (d.forest.node n).children.Sublist children) :
    g.Inserted (perform (Edit.setChildren n children) d).2.forest root :=
  h.modify rfl (.inr hn) hs

theorem insertChild {d : Document} (h : g.Inserted d.forest root) {n : NodeId} (slot : Int)
    (c : NodeId) (hn : (g.node n).children ≠ []) :
    g.Inserted (perform (Edit.insertChild n slot c) d).2.forest root := by
  unfold Edit.insertChild
  split_ifs
  · exact h
  · exact h.setChildren hn (Slot.sublist_insert _ _ _)

end Forest.Inserted

/-! ## The whole parse -/

theorem SyntaxTree.WellPlaced.aligned {text : String} : ∀ {ts : List SyntaxTree} {a b : Nat},
    WellPlaced text a b ts → AlignedAll text ts
  | [], _, _, _ => trivial
  | t :: ts, a, b, ⟨_, h2, h3⟩ => by
    have := count_eq t
    obtain ⟨hstart, hstop, hbelow⟩ := wellFormed_iff.1 h2
    exact ⟨aligned_iff.2 ⟨hstart, hstop, hbelow.aligned⟩, h3.aligned⟩
termination_by ts => countAll ts
decreasing_by
  all_goals
    simp only [countAll]
    omega

theorem SyntaxTree.WellFormed.aligned {text : String} {t : SyntaxTree} (h : t.WellFormed text) :
    t.Aligned text := by
  obtain ⟨hstart, hstop, hbelow⟩ := wellFormed_iff.1 h
  exact aligned_iff.2 ⟨hstart, hstop, hbelow.aligned⟩

namespace Forest.Inserted

variable {g f f₀ : Forest} {text : String} {stamp root : Nat} {t : SyntaxTree}

theorem below (h : g.Inserted f root) {m : NodeId} (hm : g.Below root m) : f.Below root m := by
  induction hm with
  | refl => exact .refl root
  | tail hb hc ih => exact ih.child ((h.sublist _ hb).subset hc)

/-- A tree with children stands at the root, widened at most. -/
theorem throughout (h : g.Inserted f root) (hr : g.Remembers f)
    (hg : t.Rooted (.ofText stamp text) f₀ g root) (hc : t.children ≠ []) :
    (t.spanning text.toUTF8.size).Throughout
      (SyntaxTree.Widened (.ofText stamp text) g f) root := by
  have hcount := t.count_eq
  have hwidened : ∀ {t' : SyntaxTree} {m : Nat}, root ≤ m → m < root + t.count →
      t'.Stands (.ofText stamp text) g m → t'.Widened (.ofText stamp text) g f m := by
    intro t' m h1 h2 hs
    have hm := hg.branches.below_iff.2 ⟨h1, h2⟩
    exact ⟨hs, hr.memory m (hg.isTree.inRange m hm), h.text m hm, h.leaf m hm, h.sublist m hm⟩
  refine SyntaxTree.throughout_iff.2 ⟨hwidened le_rfl (by omega) (hg.stands hc), ?_⟩
  rw [SyntaxTree.children_spanning]
  exact hg.trees.imp fun t' m h1 h2 hs => hwidened (by omega) (by omega) hs

/-- A root that is a leaf is all there is, and as it was. -/
theorem bare (h : g.Inserted f root) (hr : g.Remembers f)
    (hg : t.Rooted (.ofText stamp text) f₀ g root) (hc : t.children = []) :
    f.verbatim root = .ok text ∧ f.Untouched root ∧ ∀ m, g.Below root m →
      (f.node m).children = (g.node m).children := by
  have hnone : (g.node root).children = [] := by
    rw [hg.branches.here, hc]
    rfl
  have hempty := h.leaf root (.refl root) hnone
  refine ⟨?_, fun m hm => ?_, fun m hm => ?_⟩
  · have hlt := hg.isTree.inRange root (.refl root)
    obtain ⟨u, -, htop⟩ := hg.top
    simp only [verbatim, hr.span hlt, hr.source hlt, htop, SyntaxTree.grown]
    exact Source.slice_all stamp text
  · rcases below_iff.1 hm with rfl | ⟨c, hmem, -⟩
    · exact (hg.isModified_iff hr (.refl m)).2 ⟨h.text m (.refl m), by rw [hempty, hnone]⟩
    · rw [hempty] at hmem
      cases hmem
  · rcases below_iff.1 hm with rfl | ⟨c, hmem, -⟩
    · rw [hempty, hnone]
    · rw [hnone] at hmem
      cases hmem

end Forest.Inserted

/-- However nodes are inserted among the children of a parse, the parsed text is a subsequence of
what is printed, and the children of every node that has got new ones are printed side by side,
each as it is alone. -/
theorem print_inserted {η : Type} {w₀ w w' w'' : Workspace η} {parser : ParserId}
    {text : String} {root : NodeId} (h₀ : w₀.document.forest = .empty)
    (hbefore : Worked (fun text t => t.Aligned text) w₀ w)
    (hparse : perform (Work.parse parser text) w = (.ok root, w'))
    (hwell : ∀ parsed, w.grammars.tree (w.parsers.getD parser default).language text = some parsed →
      parsed.root.WellFormed text)
    (hwork : Worked (fun text t => t.Aligned text) w' w'')
    (hins : w'.document.forest.Inserted w''.document.forest root)
    (hac : w''.document.forest.Acyclic root) (p : Printer) :
    let g := w'.document.forest
    let f := w''.document.forest
    ∃ out, p.print f root (f.node root).source = .ok out ∧ text.toList.Sublist out.toList ∧
      ∀ m, g.Below root m → (f.node m).children ≠ (g.node m).children →
        ∃ texts gap before after,
          (∀ c ∈ (f.node m).children, p.print f c (f.node root).source = .ok (texts c)) ∧
          (∀ i prev cur, (f.node m).children[i]? = some prev →
            (f.node m).children[i + 1]? = some cur →
            p.gapIn f m (i + 1) prev cur = .ok (gap (i + 1) prev cur)) ∧
          out = before ++ (woven gap texts (f.node m).children ++ after) := by
  intro g f
  obtain ⟨stamp, parsed, g₀, htree, hplant, hd⟩ := Work.parse_eq_ok hparse
  obtain rfl : g₀ = g := by rw [show g = w'.document.forest from rfl, hd]
  have ht := hwell parsed htree
  have hg := SyntaxTree.rooted_of_plant hplant
  have hr : g.Remembers f := hwork.remembers
  have hsound : f.Sound :=
    hwork.sound ((hbefore.sound (h₀ ▸ Forest.sound_empty)).plant ht.aligned hg)
  obtain ⟨out, hout⟩ := Printer.exists_spelled _ hac.within (hsound.legible p root)
  have hsource : (f.node root).source = some (.ofText stamp text) := by
    obtain ⟨u, -, htop⟩ := hg.top
    rw [hr.source (hg.isTree.inRange root (.refl root)), htop]
    rfl
  rw [hsource]
  refine ⟨out, by rw [p.print_some hac, hout.textOf hac], ?_⟩
  by_cases hc : parsed.root.children = []
  · obtain ⟨hverbatim, hu, hsame⟩ := hins.bare hr hg hc
    have htext := hout.textOf hac
    rw [Printer.textOf_untouched hac hu, hverbatim] at htext
    cases htext
    exact ⟨.refl _, fun m hm hne => absurd (hsame m hm) hne⟩
  · -- the root spans all of the text, so what covers its span holds the text
    have hw := hins.throughout hr hg hc
    refine ⟨?_, fun m hm hne => ?_⟩
    · obtain ⟨v, hv, hsub⟩ := hout.covers _ ht.spanning hw
      simp only [SyntaxTree.start_spanning, SyntaxTree.stop_spanning] at hv
      rw [ByteArray.extract_zero_size] at hv
      rwa [String.toByteArray_inj.1 hv] at hsub
    · have hmod : ¬ f.Untouched m := fun hu =>
        hne ((hg.isModified_iff hr hm).1 (hu m (.refl m))).2
      obtain ⟨h1, h2⟩ := hg.branches.below_iff.1 hm
      obtain ⟨t', ht', -⟩ := hw.at h1 (by simpa using h2)
      have hinner : t'.children ≠ [] := fun hnil => hmod (ht'.here.untouched hnil)
      obtain ⟨u, before, after, hspelled, rfl⟩ := hout.within hw hm hmod
      obtain ⟨leading, gap, trailing, texts, htexts, rfl, hframed⟩ :=
        hspelled.around hmod (ht'.here.text_inner hinner)
      refine ⟨texts, gap, before ++ leading, trailing ++ after, fun c hmem => ?_,
        (hframed ht'.here.isParsed).gap, by simp only [f, String.append_assoc]⟩
      have hac' := hac.below ((hins.below hm).child hmem)
      rw [p.print_some hac', (htexts c hmem).textOf hac']

/-- Beside the pair there are a name and a new comma, and paths on the pair and its first name. -/
def pairLooked : Workspace Unit :=
  (perform (Work.edit (Edit.child 0 0))
    (perform (Work.edit (Edit.addRoot 0))
      (perform (Work.edit (Edit.addNode (.leaf "," "," false))) nameParsed).2).2).2

/-- The comma and the other name are put behind the first name, and the other name also in front. -/
def pairFilled : Workspace Unit :=
  (perform (Work.edit (Edit.insertChild 0 0 3))
    (perform (Work.edit (Edit.replace 1 [1, 4, 3])) pairLooked).2).2

theorem inserted_pairFilled :
    pairParsed.document.forest.Inserted pairFilled.document.forest 0 := by
  have hlooked : pairParsed.document.forest.Inserted pairLooked.document.forest 0 := by
    have hsame : ∀ m ∈ [0, 1, 2],
        (pairLooked.document.forest.node m).text = (pairParsed.document.forest.node m).text ∧
        (pairLooked.document.forest.node m).children =
          (pairParsed.document.forest.node m).children := by decide +kernel
    exact (Forest.Inserted.refl _ 0).elsewhere fun m hm =>
      hsame m (Forest.below_mem [0, 1, 2] (by decide) (by decide +kernel) hm)
  unfold pairFilled
  rw [Work.document_edit]
  refine Forest.Inserted.insertChild ?_ 0 3 (by decide +kernel)
  rw [Work.document_edit]
  exact hlooked.replace (by decide +kernel)

theorem print_inserted_pair :
    Worked (fun text t => t.Aligned text) pairParsed pairFilled ∧
      pairParsed.document.forest.Inserted pairFilled.document.forest 0 ∧
      pairFilled.document.forest.Acyclic 0 ∧
      (⟨"_"⟩ : Printer).print pairFilled.document.forest 0
        (pairFilled.document.forest.node 0).source = .ok "ü_a ,_ü é" ∧
      "a é".toList.Sublist "ü_a ,_ü é".toList := by
  have hac : pairFilled.document.forest.Acyclic 0 :=
    Forest.Within.acyclic (k := 2) (by decide +kernel)
  have hwork : Worked (fun text t => t.Aligned text) pairParsed pairFilled :=
    .edit (.edit (.edit (.edit (.edit worked_nameParsed (.addNode rfl)) (.addRoot 0))
      (.child 0 0)) (.replace 1 [1, 4, 3])) (.insertChild 0 0 3)
  have htext : (⟨"_"⟩ : Printer).textOf pairFilled.document.forest 0 = .ok "ü_a ,_ü é" :=
    eq_ok_of_toOption (by decide +kernel)
  obtain ⟨base, hbase⟩ : ∃ base, (pairFilled.document.forest.node 0).source = some base :=
    Option.isSome_iff_exists.1 (by decide +kernel)
  obtain ⟨out, hout, hsub, -⟩ := print_inserted rfl .start parse_pair (fun parsed h => by
    cases h
    decide +kernel) hwork inserted_pairFilled hac ⟨"_"⟩
  have hprint := hout
  rw [hbase, Printer.print_some _ hac, htext] at hprint
  cases hprint
  exact ⟨hwork, inserted_pairFilled, hac, hout, hsub⟩

end Retouch
