import Mathlib.Data.Set.Card
import Retouch.Proofs.Ancestors
import Retouch.Proofs.Parsing
import Retouch.Proofs.Rendering
import Retouch.Proofs.Replacing

/-!
# What a collection prints

A collection that was made from another prints what that one prints, and so on up to the one without
parent (`Derived.origin_eq`). This one prints from the node at which the ways up from its paths end,
if there is only one (`toSource_single`). Of the errors that are told in a report, printing a tree
gives none (`untold_print`), so an empty collection and one with several roots can be told from what
goes wrong in a tree.
-/

namespace Retouch

theorem perform_liftM {σ α : Type} (x : Except Fault α) (s : σ) :
    perform (liftM x : ExceptT Fault (StateM σ) α) s = (x, s) := by
  cases x <;> rfl

namespace Collection

/-! ## Derivations -/

/-- The second collection was made from the first, in whatever document. -/
inductive MadeFrom : Collection → Collection → Prop
  | derive {c c' : Collection} (d : Document) (items : List Item) (kind : Datum) :
      c.deriveItems d items kind = .ok c' → MadeFrom c c'
  | single {c c' : Collection} (d : Document) (index : Int) :
      c.single d index = .ok c' → MadeFrom c c'
  | slice {c c' : Collection} (d : Document) (start stop step : Option Int) :
      c.slice d start stop step = .ok c' → MadeFrom c c'
  | filter {c c' : Collection} {d d' : Document} (test : PathId → Edit Bool) :
      perform (c.filter test) d = (.ok c', d') → MadeFrom c c'
  | map {c c' : Collection} {d d' : Document} (f : PathId → Edit (Option Input)) (kind : Datum) :
      perform (c.map f kind) d = (.ok c', d') → MadeFrom c c'

/-- A chain of collections, each made from the one before. -/
def Derived : Collection → Collection → Prop :=
  Relation.ReflTransGen MadeFrom

variable {r c c' : Collection} {d : Document}

theorem parent_of_deriveItems {items : List Item} {kind : Datum}
    (h : c.deriveItems d items kind = .ok c') : c'.parent = some c := by
  unfold deriveItems ofItems at h
  obtain ⟨paths, -, h⟩ := bind_eq_ok.1 h
  obtain ⟨kind', -, h⟩ := bind_eq_ok.1 h
  cases h
  rfl

theorem MadeFrom.parent (h : MadeFrom c c') : c'.parent = some c := by
  cases h with
  | derive d items kind h => exact parent_of_deriveItems h
  | single d index h =>
    obtain ⟨p, -, h⟩ := bind_eq_ok.1 h
    exact parent_of_deriveItems h
  | slice d start stop step h =>
    unfold Collection.slice at h
    simp only at h
    split_ifs at h
    exact parent_of_deriveItems h
  | filter test h =>
    obtain ⟨kept, d₁, -, h⟩ := perform_bind_eq_ok.1 h
    rw [perform_bind_of_ok (perform_get d₁), perform_liftM] at h
    exact parent_of_deriveItems (Prod.mk.inj h).1
  | map f kind h =>
    obtain ⟨found, d₁, -, h⟩ := perform_bind_eq_ok.1 h
    rw [perform_bind_of_ok (perform_get d₁), perform_liftM] at h
    exact parent_of_deriveItems (Prod.mk.inj h).1

theorem origin_of_parent (h : c'.parent = some c) : c'.origin = c.origin := by
  obtain ⟨paths, kind, methods, printer, parent⟩ := c'
  cases h
  rw [origin]

theorem origin_of_root (h : c.parent = none) : c.origin = c := by
  obtain ⟨paths, kind, methods, printer, parent⟩ := c
  cases h
  rw [origin]

theorem Derived.origin_eq (h : Derived r c) : c.origin = r.origin := by
  induction h with
  | refl => rfl
  | tail _ hstep ih => rw [origin_of_parent hstep.parent, ih]

/-! ## Roots -/

/-- The nodes at which the ways up from the paths end. -/
def tops (c : Collection) (d : Document) : Set NodeId :=
  {n | ∃ p ∈ c.paths, ∃ above, d.Way p above ∧ (d.path (above.getLastD p)).node = n}

theorem mem_tops (hends : ∀ p ∈ c.paths, ∃ above, d.Way p above) {n : NodeId} :
    n ∈ c.tops d ↔ n ∈ c.roots d := by
  unfold tops roots
  rw [List.mem_eraseDups, List.mem_map]
  refine exists_congr fun p => and_congr_right fun hp => ?_
  obtain ⟨above, hway⟩ := hends p hp
  rw [hway.root_eq]
  constructor
  · rintro ⟨above', hway', hn⟩
    rwa [← hway.unique hway']
  · exact fun hn => ⟨above, hway, hn⟩

theorem roots_eq_nil_iff : c.roots d = [] ↔ c.paths = [] := by
  constructor
  · intro h
    refine List.eq_nil_iff_forall_not_mem.2 fun p hp => ?_
    have hroot : (d.path (d.root p)).node ∈ c.roots d :=
      List.mem_eraseDups.2 (List.mem_map_of_mem hp)
    rw [h] at hroot
    cases hroot
  · intro h
    unfold roots
    rw [h]
    rfl

theorem ncard_tops (hends : ∀ p ∈ c.paths, ∃ above, d.Way p above) :
    (c.tops d).ncard = (c.roots d).length := by
  have htops : c.tops d = ((c.roots d).toFinset : Set NodeId) := by
    ext n
    rw [mem_tops hends, Finset.mem_coe, List.mem_toFinset]
  have hnodup : (c.roots d).Nodup := Assoc.nodup_eraseDups _
  rw [htops, Set.ncard_coe_finset, List.toFinset_card_of_nodup hnodup]

end Collection

/-! ## Faults of printing -/

/-- Whatever goes wrong, it is no error that is told in a report. -/
def Untold {α : Type} (x : Except Fault α) : Prop :=
  ∀ error, x ≠ .error (.tool error)

theorem Untold.ok {α : Type} (a : α) : Untold (.ok a) := by
  rintro _ ⟨⟩

theorem Untold.bind {α β : Type} {x : Except Fault α} {next : α → Except Fault β} (hx : Untold x)
    (hnext : ∀ a, Untold (next a)) : Untold (x >>= next) := by
  cases x with
  | ok a => exact hnext a
  | error e => exact fun error h => hx error (congrArg _ (Except.error.inj h))

theorem Forest.untold_spanOf (f : Forest) (n : NodeId) : Untold (f.spanOf n) := by
  unfold spanOf
  split <;> rintro _ ⟨⟩

theorem Source.untold_slice (s : Source) (start stop : Int) : Untold (s.slice start stop) := by
  unfold slice
  split <;> rintro _ ⟨⟩

namespace Printer

variable (p : Printer) (f : Forest) (source : Source) (former : List NodeId)

theorem untold_formerGap (k : Nat) : Untold (formerGap f source former k) := by
  unfold formerGap
  split
  · exact (f.untold_spanOf _).bind fun _ => (f.untold_spanOf _).bind fun _ =>
      source.untold_slice _ _
  · rintro _ ⟨⟩

theorem untold_gap (count i : Nat) (prev cur : NodeId) :
    Untold (p.gap f source former count i prev cur) := by
  have hbefore : Untold (gap.before p f source former prev cur) := by
    unfold gap.before
    split
    · exact untold_formerGap f source former _
    · exact .ok _
  unfold gap
  split_ifs
  · exact untold_formerGap f source former _
  · split
    · split_ifs
      · exact untold_formerGap f source former _
      · exact hbefore
    · exact hbefore

theorem untold_gappedAfter (count : Nat) : ∀ (i : Nat) (prev : NodeId) (children : List NodeId),
    Untold (p.gappedAfter f source former count i prev children)
  | _, _, [] => .ok _
  | i, prev, c :: rest =>
    (p.untold_gap f source former count i prev c).bind fun _ =>
      (untold_gappedAfter count (i + 1) c rest).bind fun _ => .ok _

theorem untold_gapped (children : List NodeId) : Untold (p.gapped f source former children) := by
  cases children with
  | nil => exact .ok _
  | cons c rest => exact (p.untold_gappedAfter f source former _ 1 c rest).bind fun _ => .ok _

theorem untold_rebuilt (node : Node) (span : Int × Int) :
    Untold (p.rebuilt f node source span) := by
  unfold rebuilt
  split
  · exact (f.untold_spanOf _).bind fun _ => (source.untold_slice _ _).bind fun _ =>
      (p.untold_gapped f source _ _).bind fun _ => (f.untold_spanOf _).bind fun _ =>
        (source.untold_slice _ _).bind fun _ => .ok _
  · exact p.untold_gapped f source _ _

theorem untold_expand (pristine : NodeId → Bool) (n : NodeId) :
    Untold (p.expand f pristine n) := by
  unfold expand
  simp only
  split_ifs
  · split
    · exact (Source.untold_slice _ _ _).bind fun _ => .ok _
    · rintro _ ⟨⟩
  · split
    · exact .ok _
    · split
      · exact p.untold_rebuilt f _ _ _
      · exact .ok _

theorem untold_expandPlain (n : NodeId) : Untold (p.expandPlain f n) := by
  unfold expandPlain
  simp only
  split_ifs <;> exact .ok _

theorem untold_emit {expansion : NodeId → Except Fault (List Piece)}
    (h : ∀ n, Untold (expansion n)) : ∀ (fuel : Nat) (pieces : List Piece) (written : String),
    Untold (emit expansion fuel pieces written)
  | 0, [], _ | _ + 1, [], _ => .ok _
  | 0, _ :: _, _ => by rintro _ ⟨⟩
  | fuel + 1, .text s :: rest, written => untold_emit h fuel rest (written ++ s)
  | fuel + 1, .node n :: rest, written => by
    unfold emit
    split
    · exact untold_emit h fuel _ written
    · rename_i fault hfault
      exact fun error he => h n error (by rw [hfault]; exact congrArg _ (Except.error.inj he))

theorem untold_print (n : NodeId) (base : Option Source) : Untold (p.print f n base) := by
  unfold print
  cases base with
  | none => exact untold_emit (p.untold_expandPlain f) _ _ _
  | some source => exact untold_emit (p.untold_expand f _) _ _ _

end Printer

/-! ## Printing a collection -/

namespace Work

variable {η : Type} {c : Collection} {w : Workspace η}

theorem toSource_eq_of_origin {c' : Collection} (h : c'.origin = c.origin) :
    (toSource c' : Work η String) = toSource c := by
  unfold toSource
  rw [h]

theorem perform_document (w : Workspace η) : perform document w = (.ok w.document, w) := rfl

theorem perform_ofExcept {α : Type} (x : Except Fault α) (w : Workspace η) :
    perform (ofExcept x) w = (x, w) := by
  cases x <;> rfl

theorem toSource_empty (hp : c.parent = none) (hc : c.paths = []) :
    perform (toSource c) w = (.error (.tool .emptyCollection), w) := by
  unfold toSource
  simp only [Collection.origin_of_root hp, rootToPrint, hc, List.isEmpty_nil, if_true]
  rfl

theorem toSource_several (hp : c.parent = none) (hr : 1 < (c.roots w.document).length) :
    perform (toSource c) w =
      (.error (.tool (.multipleRoots (c.roots w.document).length)), w) := by
  have hc := mt Collection.roots_eq_nil_iff.2
    (List.ne_nil_of_length_pos (Nat.zero_lt_of_lt hr))
  have hroot : perform (rootToPrint c) w =
      (.error (.tool (.multipleRoots (c.roots w.document).length)), w) := by
    unfold rootToPrint
    rw [if_neg (by simpa using hc)]
    simp only
    rw [perform_bind_of_ok (perform_document w)]
    split
    · rename_i root hroots
      rw [hroots] at hr
      exact absurd hr (Nat.lt_irrefl 1)
    · rfl
  unfold toSource
  rw [Collection.origin_of_root hp, perform_bind, hroot]

/-- A collection with one root is printed from the root's node on, over the node's own source. -/
theorem toSource_single (hp : c.parent = none) {n : NodeId}
    (hr : c.roots w.document = [n]) : ∃ j, perform (toSource c) w =
      (c.printer.print w.document.forest n (w.document.forest.node n).source,
        { w with journal := j }) := by
  have hc := mt Collection.roots_eq_nil_iff.2 (hr.trans_ne (List.cons_ne_nil n []))
  obtain ⟨j, hj⟩ := perform_trace w "collection" "collection_serialized"
    [("root_type", .text (w.document.forest.node n).kind),
      ("diff_aware", .bool (w.document.forest.node n).source.isSome)] (by simp [reservedNames])
  have hroot : perform (rootToPrint c) w = (.ok n, { w with journal := j }) := by
    unfold rootToPrint
    rw [if_neg (by simpa using hc)]
    simp only
    rw [perform_bind_of_ok (perform_document w), hr]
    exact (perform_bind_of_ok hj _).trans rfl
  refine ⟨j, ?_⟩
  unfold toSource
  rw [Collection.origin_of_root hp, perform_bind_of_ok hroot,
    perform_bind_of_ok (perform_document _), perform_ofExcept]

/-- What printing a collection without parent comes to, by the number of its roots. -/
theorem toSource_cases (hp : c.parent = none) (w : Workspace η) :
    (c.paths = [] ∧ perform (toSource c) w = (.error (.tool .emptyCollection), w)) ∨
    (∃ n j, c.roots w.document = [n] ∧ perform (toSource c) w =
      (c.printer.print w.document.forest n (w.document.forest.node n).source,
        { w with journal := j })) ∨
    (1 < (c.roots w.document).length ∧ perform (toSource c) w =
      (.error (.tool (.multipleRoots (c.roots w.document).length)), w)) := by
  rcases hroots : c.roots w.document with _ | ⟨n, _ | ⟨m, rest⟩⟩
  · have hc := Collection.roots_eq_nil_iff.1 hroots
    exact .inl ⟨hc, toSource_empty hp hc⟩
  · obtain ⟨j, hj⟩ := toSource_single hp hroots
    exact .inr (.inl ⟨n, j, rfl, hj⟩)
  · have hseveral : 1 < (c.roots w.document).length := by
      rw [hroots]
      simp
    rw [← hroots]
    exact .inr (.inr ⟨hseveral, toSource_several hp hseveral⟩)

end Work

/-- What printing a collection without parent comes to, by the nodes that its tops are on. -/
structure Collection.PrintsTops {η : Type} (r : Collection) (w : Workspace η) : Prop where
  empty : (perform (Work.toSource r) w).1 = .error (.tool .emptyCollection) ↔ r.paths = []
  several : ∀ k, (perform (Work.toSource r) w).1 = .error (.tool (.multipleRoots k)) ↔
    1 < k ∧ (r.tops w.document).ncard = k
  single : r.paths ≠ [] → (r.tops w.document).ncard ≤ 1 → ∃ n, r.tops w.document = {n} ∧
    (perform (Work.toSource r) w).1 =
      r.printer.print w.document.forest n (w.document.forest.node n).source ∧
    (perform (Work.toSource r) w).2.document = w.document ∧
    (w.document.forest.Acyclic n →
      ((w.document.forest.node n).source = none →
        (perform (Work.toSource r) w).1 = r.printer.plainTextOf w.document.forest n) ∧
      ∀ source, (w.document.forest.node n).source = some source →
        (perform (Work.toSource r) w).1 = r.printer.textOf w.document.forest n)

theorem Collection.printsTops {η : Type} {r : Collection} (hr : r.parent = none) (w : Workspace η)
    (hends : ∀ p ∈ r.paths, ∃ above, w.document.Way p above) : r.PrintsTops w := by
  have hcard := Collection.ncard_tops hends
  rcases Work.toSource_cases hr w with ⟨hnil, hout⟩ | ⟨n, j, hone, hout⟩ | ⟨hseveral, hout⟩ <;>
    constructor <;> rw [hout]
  · exact iff_of_true rfl hnil
  · rw [hcard, Collection.roots_eq_nil_iff.2 hnil]
    refine fun k => iff_of_false (by rintro ⟨⟩) ?_
    rintro ⟨hk, rfl⟩
    exact absurd hk (Nat.not_lt_zero 1)
  · exact fun hne => absurd hnil hne
  · exact iff_of_false (r.printer.untold_print _ n _ _)
      (mt Collection.roots_eq_nil_iff.2 (hone.trans_ne (List.cons_ne_nil n [])))
  · rw [hcard, hone]
    refine fun k => iff_of_false (r.printer.untold_print _ n _ _) ?_
    rintro ⟨hk, rfl⟩
    exact absurd hk (Nat.lt_irrefl 1)
  · refine fun _ _ => ⟨n, ?_, rfl, rfl, fun hacyclic => ⟨fun hs => ?_, fun source hs => ?_⟩⟩
    · ext m
      rw [Collection.mem_tops hends, hone, List.mem_singleton, Set.mem_singleton_iff]
    · rw [hs, r.printer.print_none hacyclic]
    · rw [hs, r.printer.print_some hacyclic]
  · exact iff_of_false (by rintro ⟨⟩) (mt Collection.roots_eq_nil_iff.2
      (List.ne_nil_of_length_pos (Nat.zero_lt_of_lt hseveral)))
  · rw [hcard]
    refine fun k => ⟨?_, ?_⟩
    · rintro ⟨⟩
      exact ⟨hseveral, rfl⟩
    · rintro ⟨-, rfl⟩
      rfl
  · rw [hcard]
    exact fun _ hle => absurd hle (Nat.not_le.2 hseveral)

/-- In every document that comes about, however a collection was derived, and whatever it holds, it
prints what the collection without parent at the start prints. Following parents always ends
there. -/
theorem Collection.Derived.printsTops {η : Type} {r c : Collection} (hc : Collection.Derived r c)
    (hr : r.parent = none) {w : Workspace η} (hw : w.document.Made) :
    perform (Work.toSource c) w = perform (Work.toSource r) w ∧ r.PrintsTops w :=
  ⟨by rw [Work.toSource_eq_of_origin hc.origin_eq],
    Collection.printsTops hr w fun p _ => hw.keyed.exists_way p⟩

/-- However a collection was derived, and whatever it holds, it prints what the collection without
parent at the start prints, wherever following parents ends. This one is refused as empty if it has
no paths, and as having several roots if the ways up from its paths end at several nodes. Otherwise
they end at one node, which is printed over its own source: in full if it has none, else keeping the
text of what was not changed. -/
theorem derived_prints_origin {η : Type} {r c : Collection} (hr : r.parent = none)
    (hc : Collection.Derived r c) (w : Workspace η)
    (hends : ∀ p ∈ r.paths, ∃ above, w.document.Way p above) :
    perform (Work.toSource c) w = perform (Work.toSource r) w ∧
    ((perform (Work.toSource r) w).1 = .error (.tool .emptyCollection) ↔ r.paths = []) ∧
    (∀ k, (perform (Work.toSource r) w).1 = .error (.tool (.multipleRoots k)) ↔
      1 < k ∧ (r.tops w.document).ncard = k) ∧
    (r.paths ≠ [] → (r.tops w.document).ncard ≤ 1 → ∃ n, r.tops w.document = {n} ∧
      (perform (Work.toSource r) w).1 =
        r.printer.print w.document.forest n (w.document.forest.node n).source ∧
      (perform (Work.toSource r) w).2.document = w.document ∧
      (w.document.forest.Acyclic n →
        ((w.document.forest.node n).source = none →
          (perform (Work.toSource r) w).1 = r.printer.plainTextOf w.document.forest n) ∧
        ∀ source, (w.document.forest.node n).source = some source →
          (perform (Work.toSource r) w).1 = r.printer.textOf w.document.forest n)) := by
  have hprints := Collection.printsTops hr w hends
  refine ⟨?_, hprints.empty, hprints.several, hprints.single⟩
  rw [Work.toSource_eq_of_origin hc.origin_eq]

/-- A row of three leaves with its child paths, the second of which was taken out, and another root
path to the row. -/
def looseRow : Document :=
  (perform (Edit.addPath 3 none none) ((Act.prune 2).after ((Act.childPaths 0).after
    (perform (Edit.addPath 3 none none) ⟨⟨#[.leaf "a" "1" true, .leaf "b" "2" true,
      .leaf "c" "3" true, .branch "row" [0, 1, 2] [none, none, none]]⟩, #[]⟩).2))).2

theorem made_looseRow : looseRow.Made :=
  .path 3 none none (.act (.prune 2) (.act (.childPaths 0) (.path 3 none none (.start _) (by simp))
    (by rintro _ ⟨⟩; decide)) (by rintro _ ⟨⟩; decide)) (by simp)

/-- A workspace with the row. -/
def rowWorkspace : Workspace Unit :=
  ⟨looseRow, .start "" default, ⟨[], fun _ _ => none⟩, #[], #[], #[], 0, #[]⟩

/-- The first leaf twice, and the row through its other path. -/
def firstTwice : Collection := ⟨[1, 4, 1], .text "node", 0, ⟨"-"⟩, none⟩

/-- The first leaf and the one that was taken out. -/
def firstTwo : Collection := ⟨[1, 2], .text "node", 0, ⟨"-"⟩, none⟩

theorem derived_prints_origin_loose : looseRow.Made ∧
    (∃ c, Collection.Derived firstTwice c ∧ c.paths = [] ∧
      (perform (Work.toSource c) rowWorkspace).1 = .ok "1-3") ∧
    ∃ c, Collection.Derived firstTwo c ∧ c.paths = [1] ∧
      (perform (Work.toSource c) rowWorkspace).1 = .error (.tool (.multipleRoots 2)) := by
  have hends : ∀ (r : Collection), ∀ p ∈ r.paths, ∃ above, rowWorkspace.document.Way p above :=
    fun _ p _ => made_looseRow.keyed.exists_way p
  refine ⟨made_looseRow, ?_, ?_⟩
  · obtain ⟨one, hone⟩ : ∃ one, firstTwice.single looseRow (-1) = .ok one := ⟨_, rfl⟩
    obtain ⟨c, hc, hpaths⟩ : ∃ c, one.slice looseRow none (some 0) none = .ok c ∧ c.paths = [] := by
      cases hone
      exact ⟨_, rfl, rfl⟩
    have hderived : Collection.Derived firstTwice c :=
      .tail (.single (.single looseRow (-1) hone)) (.slice looseRow none (some 0) none hc)
    obtain ⟨hsame, -, -, hprints⟩ :=
      derived_prints_origin rfl hderived rowWorkspace (hends firstTwice)
    have hcard := Collection.ncard_tops (hends firstTwice)
    have hroots : firstTwice.roots rowWorkspace.document = [3] := by decide +kernel
    rw [hroots] at hcard
    obtain ⟨n, htops, -, -, htext⟩ := hprints (by decide) hcard.le
    have hn : 3 = n := by
      rw [← Set.mem_singleton_iff, ← htops, Collection.mem_tops (hends firstTwice), hroots]
      exact List.mem_singleton_self 3
    subst hn
    have hacyclic : rowWorkspace.document.forest.Acyclic 3 :=
      Forest.Within.acyclic (k := 2) (by decide +kernel)
    refine ⟨c, hderived, hpaths, ?_⟩
    rw [hsame, (htext hacyclic).1 (by decide +kernel)]
    exact eq_ok_of_toOption (by decide +kernel)
  · obtain ⟨c, hc, hpaths⟩ : ∃ c, firstTwo.single looseRow 0 = .ok c ∧ c.paths = [1] :=
      ⟨_, rfl, rfl⟩
    have hderived : Collection.Derived firstTwo c := .single (.single looseRow 0 hc)
    obtain ⟨hsame, -, hseveral, -⟩ :=
      derived_prints_origin rfl hderived rowWorkspace (hends firstTwo)
    have hcard := Collection.ncard_tops (hends firstTwo)
    have hroots : firstTwo.roots rowWorkspace.document = [3, 1] := by decide +kernel
    rw [hroots] at hcard
    refine ⟨c, hderived, hpaths, ?_⟩
    rw [hsame]
    exact (hseveral 2).2 ⟨by decide, hcard⟩

end Retouch
