import Mathlib.Data.List.Induction
import Retouch.Proofs.Parsing

/-!
# Registrations over whole histories

A registry is filled by calls that install mappings of methods, some of which are refused, and is
emptied by resets. What stands under a name for all collections or for a kind is what the calls
since the last reset installed there and nothing else (`Recorded`), and a name that is visible to a
kind is refused to every later call that it would be visible to. So a look-up never has to choose,
and what it finds stays until a reset (`registry_unambiguous`).
-/

namespace Retouch

namespace MethodRegistry

variable {η : Type}

/-- What stands under a name, for all collections or for those of one kind. -/
def cell (r : MethodRegistry η) (kind : Option String) (name : String) : Option (Method η) :=
  match kind with
  | none => Assoc.get? r.general name
  | some k => Assoc.get? (r.table k) name

theorem lookup_eq (r : MethodRegistry η) (name kind : String) :
    r.lookup name kind = (r.cell (some kind) name).or (r.cell none name) := by
  unfold lookup cell
  simp only
  split <;> rename_i h <;> rw [h] <;> rfl

theorem cell_empty (kind : Option String) (name : String) :
    (empty : MethodRegistry η).cell kind name = none := by
  cases kind <;> rfl

theorem cell_put (r : MethodRegistry η) (k kind : Option String) (n name : String) (handler : η) :
    (r.put k n handler).cell kind name =
      if k = kind ∧ n = name then some ⟨n, handler, k⟩ else r.cell kind name := by
  rcases k with _ | k <;> rcases kind with _ | kind <;>
    simp only [put, cell, table, Assoc.get?_insert, beq_iff_eq, reduceCtorEq, false_and, if_false,
      true_and, Option.some.injEq]
  by_cases hk : k = kind
  · subst hk
    simp [Assoc.get?_insert]
  · simp [hk]

/-- The calls put each method of a mapping in its place. -/
theorem cell_puts (k kind : Option String) (name : String) :
    ∀ (methods : List (String × η)) (r : MethodRegistry η), (methods.map Prod.fst).Nodup →
    (methods.foldl (fun r m => r.put k m.1 m.2) r).cell kind name =
      if k = kind then
        ((Assoc.get? methods name).map fun handler => ⟨name, handler, k⟩).or (r.cell kind name)
      else r.cell kind name
  | [], r, _ => by simp
  | (n, handler) :: rest, r, hn => by
    simp only [List.map_cons, List.nodup_cons] at hn
    rw [List.foldl_cons, cell_puts k kind name rest _ hn.2, cell_put]
    by_cases hk : k = kind
    · simp only [hk, if_true, true_and, Assoc.get?, beq_iff_eq]
      by_cases hname : n = name
      · subst hname
        have hnone : Assoc.get? rest n = none := Assoc.get?_eq_none_iff_not_mem.2 hn.1
        simp [hnone]
      · simp [hname]
    · simp [hk]

/-- Where the names of a mapping are free, nothing is overwritten. -/
theorem cell_puts_eq_some {r : MethodRegistry η} {methods : List (String × η)}
    {k kind : Option String} {name : String} {m : Method η}
    (distinct : (methods.map Prod.fst).Nodup) (hfree : ∀ m ∈ methods, r.cell k m.1 = none) :
    (methods.foldl (fun r m => r.put k m.1 m.2) r).cell kind name = some m ↔
      (k = kind ∧ (name, m.handler) ∈ methods ∧ m = ⟨name, m.handler, kind⟩) ∨
        r.cell kind name = some m := by
  rw [cell_puts k kind name methods r distinct]
  by_cases hk : k = kind
  · subst hk
    rw [if_pos rfl, Option.or_eq_some_iff, Option.map_eq_some_iff, Option.map_eq_none_iff]
    constructor
    · rintro (⟨handler, hg, rfl⟩ | ⟨-, hold⟩)
      · exact .inl ⟨rfl, Assoc.mem_of_get? hg, rfl⟩
      · exact .inr hold
    · rintro (⟨-, hl, hm⟩ | hold)
      · exact .inl ⟨m.handler, (Assoc.get?_eq_some_iff distinct).2 hl, hm.symm⟩
      · refine .inr ⟨Option.eq_none_iff_forall_ne_some.2 fun handler hg => ?_, hold⟩
        simp [hfree _ (Assoc.mem_of_get? hg)] at hold
  · simp [hk]

theorem nodup_keys_typed_put {r : MethodRegistry η} (h : (Assoc.keys r.typed).Nodup)
    (k : Option String) (n : String) (handler : η) :
    (Assoc.keys (r.put k n handler).typed).Nodup := by
  cases k with
  | none => exact h
  | some k => exact Assoc.nodup_keys_insert h _ _

theorem nodup_keys_typed_puts (k : Option String) : ∀ (methods : List (String × η))
    {r : MethodRegistry η}, (Assoc.keys r.typed).Nodup →
    (Assoc.keys (methods.foldl (fun r m => r.put k m.1 m.2) r).typed).Nodup
  | [], _, h => h
  | m :: rest, _, h => nodup_keys_typed_puts k rest (nodup_keys_typed_put h k m.1 m.2)

/-- A name is in the way of a method for all if it stands anywhere, and of a method of a kind if it
stands for all or for that kind. -/
theorem conflicts_iff {r : MethodRegistry η} (h : (Assoc.keys r.typed).Nodup) (name : String)
    (k : Option String) : r.conflicts name k = true ↔
      ∃ kind, (k = none ∨ kind = none ∨ kind = k) ∧ (r.cell kind name).isSome := by
  have hany : (r.typed.any fun entry => Assoc.contains entry.2 name) = true ↔
      ∃ kind, (r.cell (some kind) name).isSome := by
    rw [List.any_eq_true]
    constructor
    · rintro ⟨⟨kind, table⟩, hm, hc⟩
      have ht : r.table kind = table := by
        unfold MethodRegistry.table
        rw [(Assoc.get?_eq_some_iff h).2 hm]
        rfl
      refine ⟨kind, ?_⟩
      subst ht
      exact hc
    · rintro ⟨kind, hc⟩
      rcases ht : Assoc.get? r.typed kind with _ | table
      · simp [cell, MethodRegistry.table, ht] at hc
      · refine ⟨(kind, table), Assoc.mem_of_get? ht, ?_⟩
        simpa [cell, MethodRegistry.table, ht, Assoc.contains] using hc
  unfold conflicts
  rw [Bool.or_eq_true]
  cases k with
  | none =>
    rw [hany]
    constructor
    · rintro (hc | ⟨kind, hc⟩)
      · exact ⟨none, .inl rfl, hc⟩
      · exact ⟨some kind, .inl rfl, hc⟩
    · rintro ⟨_ | kind, -, hc⟩
      · exact .inl hc
      · exact .inr ⟨kind, hc⟩
  | some k =>
    constructor
    · rintro (hc | hc)
      · exact ⟨none, .inr (.inl rfl), hc⟩
      · exact ⟨some k, .inr (.inr rfl), hc⟩
    · rintro ⟨kind, hk, hc⟩
      rcases hk with hk | rfl | rfl
      · cases hk
      · exact .inl hc
      · exact .inr hc

/-- A free name is proper, and stands nowhere where it would be seen together with the new one. -/
theorem isTaken_eq_false {r : MethodRegistry η} (h : (Assoc.keys r.typed).Nodup) {name : String}
    {k : Option String} : r.isTaken k name = false ↔
      (isHidden name = false ∧ name ∉ reserved) ∧
        ∀ kind, (k = none ∨ kind = none ∨ kind = k) → r.cell kind name = none := by
  have hc : r.conflicts name k = false ↔
      ∀ kind, (k = none ∨ kind = none ∨ kind = k) → r.cell kind name = none := by
    rw [Bool.eq_false_iff, ne_eq, conflicts_iff h]
    simp only [not_exists, not_and, Option.isSome_iff_ne_none, ne_eq, not_not]
  simp only [isTaken, Bool.or_eq_false_iff, List.contains_eq_mem, decide_eq_false_iff_not, hc]

/-! ## Sorted names -/

/-- Sorting lists every name once, in strict order. -/
theorem pairwise_sorted (names : List String) : (sorted names).Pairwise (· < ·) := by
  have hle : (sorted names).Pairwise fun a b => (!decide (b < a)) = true := by
    refine List.pairwise_mergeSort (fun a b c hab hbc => ?_) (fun a b => ?_) _
    · simp only [Bool.not_eq_true', decide_eq_false_iff_not, String.not_lt] at hab hbc ⊢
      exact String.le_trans hab hbc
    · simp only [Bool.or_eq_true, Bool.not_eq_true', decide_eq_false_iff_not, String.not_lt]
      exact String.le_total a b
  have hne : (sorted names).Pairwise (· ≠ ·) :=
    (List.mergeSort_perm _ _).nodup_iff.2 (Assoc.nodup_eraseDups names)
  refine (hle.and hne).imp fun {a b} h => ?_
  by_contra hlt
  obtain ⟨h1, h2⟩ := h
  simp only [Bool.not_eq_true', decide_eq_false_iff_not, String.not_lt] at h1
  exact h2 (String.le_antisymm h1 (String.not_lt.1 hlt))

theorem mem_sorted {names : List String} {name : String} : name ∈ sorted names ↔ name ∈ names := by
  unfold sorted
  rw [(List.mergeSort_perm _ _).mem_iff, List.mem_eraseDups]

theorem mem_keys_iff {entries : List (String × Method η)} {name : String} :
    name ∈ Assoc.keys entries ↔ (Assoc.get? entries name).isSome := by
  rw [Option.isSome_iff_ne_none, ne_eq, Assoc.get?_eq_none_iff_not_mem, not_not]

/-- The names of a kind are those that a look-up finds. -/
theorem mem_names_iff {r : MethodRegistry η} {name kind : String} :
    name ∈ r.names kind ↔ (r.lookup name kind).isSome := by
  unfold names
  rw [mem_sorted, List.mem_append, mem_keys_iff, mem_keys_iff, lookup_eq, Option.isSome_or,
    Bool.or_eq_true, or_comm]
  rfl

/-! ## One installation -/

/-- Methods are installed if no name is taken, and then all of them. -/
theorem install_eq_ok {r r' : MethodRegistry η} {methods : List (String × η)} {k : Option String} :
    r.install methods k = .ok r' ↔
      (∀ m ∈ methods, r.isTaken k m.1 = false) ∧
        r' = methods.foldl (fun r m => r.put k m.1 m.2) r := by
  unfold install
  split
  · rename_i name h
    obtain ⟨m, hm, rfl⟩ := List.mem_map.1 (List.mem_of_find?_eq_some h)
    have ht := List.find?_some h
    simp only [reduceCtorEq, false_iff, not_and]
    intro hall
    rw [hall m hm] at ht
    cases ht
  · rename_i h
    have hall : ∀ m ∈ methods, r.isTaken k m.1 = false := by
      intro m hm
      simpa using List.find?_eq_none.1 h m.1 (List.mem_map_of_mem hm)
    rw [Except.ok.injEq, eq_comm]
    exact ⟨fun h => ⟨hall, h⟩, fun h => h.2⟩

end MethodRegistry

/-! ## Names of the collection -/

/-- Of the names under which a collection has something, the methods reserve those not hidden. -/
theorem has_collection_iff {name : String} (h : MethodRegistry.isHidden name = false) :
    Names.has "Collection" name = true ↔ name ∈ MethodRegistry.reserved := by
  rw [MethodRegistry.reserved, List.mem_filter, List.mem_append, Names.has, Bool.or_eq_true,
    List.contains_iff_mem, List.contains_iff_mem, h]
  exact ⟨fun hm => ⟨hm, rfl⟩, fun hm => hm.1⟩

example : MethodRegistry.reserved = ["at", "derive", "filter", "for_each", "get_types",
    "is_of_type", "kind", "map", "nodes", "parent", "paths", "size", "to_source"] := by
  decide +kernel

/-! ## Histories -/

/-- A registration is refused and changes nothing, or fills its own registry and no other. -/
theorem Work.installMethods_cases {η : Type} (w : Workspace η) (r : MethodsId)
    (methods : List (String × η)) (kind : Option String) :
    (∃ e, (w.methods.getD r .empty).install methods kind = .error e ∧
      perform (Work.installMethods r methods kind) w = (.error (.tool e), w)) ∨
    ∃ reg j, (w.methods.getD r .empty).install methods kind = .ok reg ∧
      perform (Work.installMethods r methods kind) w =
        (.ok (), { w with methods := w.methods.set! r reg, journal := j }) := by
  have hget : perform (Work.methods r) w = (.ok (w.methods.getD r .empty), w) := rfl
  unfold Work.installMethods
  rw [perform_bind_of_ok hget]
  cases hi : (w.methods.getD r .empty).install methods kind with
  | error e => exact .inl ⟨e, rfl, rfl⟩
  | ok reg =>
    obtain ⟨j, hj⟩ := Work.perform_trace { w with methods := w.methods.set! r reg }
      "collection.methods" "methods_registered"
      [("names", .list ((MethodRegistry.sorted (methods.map Prod.fst)).map Datum.text)),
        ("node_type", .ofText? kind)] (by simp [reservedNames])
    refine .inr ⟨reg, j, rfl, ?_⟩
    simp only
    rw [perform_bind_of_ok (perform_modify _ _), hj]

theorem Work.document_installMethods {η : Type} (w : Workspace η) (r : MethodsId)
    (methods : List (String × η)) (kind : Option String) :
    (perform (Work.installMethods r methods kind) w).2.document = w.document := by
  rcases Work.installMethods_cases w r methods kind with ⟨e, -, hw⟩ | ⟨reg, j, -, hw⟩ <;> rw [hw]

/-- A call that changes a registry. A mapping of methods lists every name once. -/
inductive MethodCall (η : Type) where
  | register (r : MethodsId) (methods : List (String × η)) (kind : Option String)
      (distinct : (methods.map Prod.fst).Nodup)
  | reset (r : MethodsId)

namespace MethodCall

variable {η : Type}

/-- The work of a call. -/
def work : MethodCall η → Work η Unit
  | register r methods kind _ => Work.installMethods r methods kind
  | reset r => Work.resetMethods r

/-- What calls one after another leave, whether they succeed or fail. -/
def after (w : Workspace η) (calls : List (MethodCall η)) : Workspace η :=
  calls.foldl (fun w call => (perform call.work w).2) w

theorem after_append (w : Workspace η) (calls more : List (MethodCall η)) :
    after w (calls ++ more) = after (after w calls) more :=
  List.foldl_append

/-- The registry that calls leave. -/
def registry (w : Workspace η) (calls : List (MethodCall η)) (r : MethodsId) : MethodRegistry η :=
  (after w calls).methods.getD r .empty

/-- Among the calls, after those of `before`, one installed the methods in the registry for a kind,
and no reset of the registry came later. -/
def Installed (w : Workspace η) (r : MethodsId) (calls before : List (MethodCall η))
    (methods : List (String × η)) (kind : Option String) : Prop :=
  ∃ distinct later, calls = before ++ register r methods kind distinct :: later ∧
    reset r ∉ later ∧ (perform (Work.installMethods r methods kind) (after w before)).1 = .ok ()

variable {w : Workspace η} {r : MethodsId} {calls before : List (MethodCall η)}
  {methods : List (String × η)} {kind : Option String}

theorem Installed.append (h : Installed w r calls before methods kind)
    {more : List (MethodCall η)} (hm : reset r ∉ more) :
    Installed w r (calls ++ more) before methods kind := by
  obtain ⟨distinct, later, rfl, hl, hok⟩ := h
  refine ⟨distinct, later ++ more, by simp, ?_, hok⟩
  simp [hl, hm]

theorem installed_nil : ¬ Installed w r [] before methods kind := by
  rintro ⟨distinct, later, h, -⟩
  simp at h

/-- A later call either is the one that installed, or is no reset and left what was installed. -/
theorem installed_concat {call : MethodCall η} :
    Installed w r (calls ++ [call]) before methods kind ↔
      (before = calls ∧ (∃ distinct, call = register r methods kind distinct) ∧
        (perform (Work.installMethods r methods kind) (after w calls)).1 = .ok ()) ∨
      (call ≠ reset r ∧ Installed w r calls before methods kind) := by
  constructor
  · rintro ⟨distinct, later, h, hl, hok⟩
    rcases List.eq_nil_or_concat later with rfl | ⟨later, last, rfl⟩
    · obtain ⟨rfl, hcall⟩ := List.append_inj' h rfl
      exact .inl ⟨rfl, ⟨distinct, by simpa using hcall⟩, hok⟩
    · rw [List.concat_eq_append] at h hl
      rw [← List.cons_append, ← List.append_assoc] at h
      obtain ⟨rfl, hcall⟩ := List.append_inj' h rfl
      obtain rfl : call = last := by simpa using hcall
      refine .inr ⟨?_, distinct, later, rfl, ?_, hok⟩
      · rintro rfl
        simp at hl
      · exact fun hm => hl (List.mem_append_left _ hm)
  · rintro (⟨rfl, ⟨distinct, rfl⟩, hok⟩ | ⟨hne, h⟩)
    · exact ⟨distinct, [], rfl, List.not_mem_nil, hok⟩
    · exact h.append (by simpa using hne.symm)

/-! ## What a registry records -/

/-- A registry holds what the calls installed and no reset removed; nothing for all stands also for
a kind, and no name is hidden or taken by the collection itself. -/
structure Recorded (w : Workspace η) (r : MethodsId) (calls : List (MethodCall η))
    (reg : MethodRegistry η) : Prop where
  kinds : (Assoc.keys reg.typed).Nodup
  apart : ∀ name kind, (reg.cell none name).isSome → reg.cell (some kind) name = none
  proper : ∀ kind name, (reg.cell kind name).isSome →
    MethodRegistry.isHidden name = false ∧ name ∉ MethodRegistry.reserved
  holds : ∀ kind name m, reg.cell kind name = some m ↔
    ∃ before methods, Installed w r calls before methods kind ∧ (name, m.handler) ∈ methods ∧
      m = ⟨name, m.handler, kind⟩

namespace Recorded

variable {reg : MethodRegistry η}

theorem of_not_installed (h : ∀ before methods kind, ¬ Installed w r calls before methods kind) :
    Recorded w r calls .empty where
  kinds := List.nodup_nil
  apart _ _ _ := MethodRegistry.cell_empty _ _
  proper kind name hs := by simp [MethodRegistry.cell_empty] at hs
  holds kind name m := by
    simp only [MethodRegistry.cell_empty, reduceCtorEq, false_iff]
    rintro ⟨before, methods, hi, -⟩
    exact h before methods kind hi

theorem of_reset : Recorded w r (calls ++ [reset r]) .empty := by
  refine of_not_installed fun before methods kind h => ?_
  rcases installed_concat.1 h with ⟨-, ⟨_, hc⟩, -⟩ | ⟨hne, -⟩
  · cases hc
  · exact hne rfl

/-- Calls that neither reset the registry nor install in it are not recorded. -/
theorem keep (h : Recorded w r calls reg) {call : MethodCall η} (hreset : call ≠ reset r)
    (hno : ∀ methods kind distinct, call = register r methods kind distinct →
      (perform (Work.installMethods r methods kind) (after w calls)).1 ≠ .ok ()) :
    Recorded w r (calls ++ [call]) reg where
  kinds := h.kinds
  apart := h.apart
  proper := h.proper
  holds kind name m := by
    rw [h.holds]
    have hiff : ∀ before methods, Installed w r (calls ++ [call]) before methods kind ↔
        Installed w r calls before methods kind := by
      intro before methods
      rw [installed_concat]
      constructor
      · rintro (⟨-, ⟨distinct, hc⟩, hok⟩ | ⟨-, hi⟩)
        · exact absurd hok (hno methods kind distinct hc)
        · exact hi
      · exact fun hi => .inr ⟨hreset, hi⟩
    simp only [hiff]

/-- Methods whose names are not taken are recorded beside those that are there. -/
theorem fill (h : Recorded w r calls reg) (distinct : (methods.map Prod.fst).Nodup)
    (hfree : ∀ m ∈ methods, reg.isTaken kind m.1 = false)
    (hok : (perform (Work.installMethods r methods kind) (after w calls)).1 = .ok ()) :
    Recorded w r (calls ++ [register r methods kind distinct])
      (methods.foldl (fun reg m => reg.put kind m.1 m.2) reg) := by
  have hnew := fun m hm => (MethodRegistry.isTaken_eq_false h.kinds).1 (hfree m hm)
  have hsome : ∀ k name m,
      (methods.foldl (fun reg m => reg.put kind m.1 m.2) reg).cell k name = some m ↔
        (kind = k ∧ (name, m.handler) ∈ methods ∧ m = ⟨name, m.handler, k⟩) ∨
          reg.cell k name = some m :=
    fun k name m => MethodRegistry.cell_puts_eq_some distinct
      fun m hm => (hnew m hm).2 kind (.inr (.inr rfl))
  constructor
  · exact MethodRegistry.nodup_keys_typed_puts kind methods h.kinds
  · intro name k hs
    obtain ⟨m, hm⟩ := Option.isSome_iff_exists.1 hs
    refine Option.eq_none_iff_forall_ne_some.2 fun m' hm' => ?_
    -- a name for all and one for a kind, each new or old: the new one was free
    rcases (hsome _ _ _).1 hm with ⟨rfl, hl, -⟩ | hold <;>
      rcases (hsome _ _ _).1 hm' with ⟨hk, hl', -⟩ | hold'
    · cases hk
    · simp [(hnew _ hl).2 (some k) (.inl rfl)] at hold'
    · simp [(hnew _ hl').2 none (.inr (.inl rfl))] at hold
    · simp [h.apart name k (by simp [hold])] at hold'
  · intro k name hs
    obtain ⟨m, hm⟩ := Option.isSome_iff_exists.1 hs
    rcases (hsome _ _ _).1 hm with ⟨-, hl, -⟩ | hold
    · exact (hnew _ hl).1
    · exact h.proper k name (by simp [hold])
  · intro k name m
    rw [hsome, h.holds]
    constructor
    · rintro (⟨rfl, hl, hm⟩ | ⟨before, ms, hi, hm⟩)
      · exact ⟨calls, methods, installed_concat.2 (.inl ⟨rfl, ⟨distinct, rfl⟩, hok⟩), hl, hm⟩
      · exact ⟨before, ms, hi.append (by simp), hm⟩
    · rintro ⟨before, ms, hi, hl, hm⟩
      rcases installed_concat.1 hi with ⟨-, ⟨_, hc⟩, -⟩ | ⟨-, hi⟩
      · injection hc with _ hms hk
        subst hms hk
        exact .inl ⟨rfl, hl, hm⟩
      · exact .inr ⟨before, ms, hi, hl, hm⟩

end Recorded

/-- What one call leaves in a registry. -/
theorem registry_concat (call : MethodCall η) (hr : r < (after w calls).methods.size) :
    (call = reset r ∧ registry w (calls ++ [call]) r = .empty) ∨
    (∃ methods kind distinct, call = register r methods kind distinct ∧
      (registry w calls r).install methods kind = .ok (registry w (calls ++ [call]) r) ∧
      (perform (Work.installMethods r methods kind) (after w calls)).1 = .ok ()) ∨
    (call ≠ reset r ∧ registry w (calls ++ [call]) r = registry w calls r ∧
      ∀ methods kind distinct, call = register r methods kind distinct →
        (perform (Work.installMethods r methods kind) (after w calls)).1 ≠ .ok ()) := by
  have hafter : after w (calls ++ [call]) = (perform call.work (after w calls)).2 :=
    after_append w calls [call]
  have hset : ∀ r' reg, ((after w calls).methods.set! r' reg).getD r .empty =
      if r' = r then reg else (after w calls).methods.getD r .empty := by
    intro r' reg
    rw [Array.set!_eq_setIfInBounds, Array.getD_eq_getD_getElem?, Array.getElem?_setIfInBounds,
      Array.getD_eq_getD_getElem?]
    by_cases h : r' = r
    · subst h
      simp [hr]
    · simp [h]
  unfold registry
  rw [hafter]
  cases call with
  | reset r' =>
    have hreset : perform (reset r' : MethodCall η).work (after w calls) = (.ok (),
        { after w calls with methods := (after w calls).methods.set! r' .empty }) := rfl
    rw [hreset]
    simp only [hset]
    by_cases h : r' = r
    · subst h
      exact .inl ⟨rfl, if_pos rfl⟩
    · refine .inr (.inr ⟨?_, if_neg h, ?_⟩)
      · simpa using h
      · intro methods kind distinct hc
        cases hc
  | register r' methods kind distinct =>
    by_cases h : r' = r
    · subst h
      rcases Work.installMethods_cases (after w calls) r' methods kind with
        ⟨e, -, hp⟩ | ⟨reg, j, hi, hp⟩
      · refine .inr (.inr ⟨by simp, by simp [work, hp], ?_⟩)
        intro methods' kind' distinct' hc
        injection hc with _ hms hk
        subst hms hk
        simp [hp]
      · refine .inr (.inl ⟨methods, kind, distinct, rfl, ?_, by simp [hp]⟩)
        rw [hi]
        simp only [work, hp, hset, if_true]
    · refine .inr (.inr ⟨by simp, ?_, ?_⟩)
      · rcases Work.installMethods_cases (after w calls) r' methods kind with
          ⟨e, -, hp⟩ | ⟨reg, j, hi, hp⟩
        · simp [work, hp]
        · simp only [work, hp, hset, h, if_false]
      · intro methods' kind' distinct' hc
        injection hc with hr'
        exact absurd hr' h

theorem size_after (w : Workspace η) : ∀ calls : List (MethodCall η),
    (after w calls).methods.size = w.methods.size
  | [] => rfl
  | call :: rest => by
    have hcall : (perform call.work w).2.methods.size = w.methods.size := by
      cases call with
      | reset r => simp [work, Work.resetMethods]
      | register r methods kind distinct =>
        rcases Work.installMethods_cases w r methods kind with ⟨e, -, hp⟩ | ⟨reg, j, -, hp⟩
        · simp [work, hp]
        · simp [work, hp]
    exact (size_after _ rest).trans hcall

/-- A registry that was empty records the calls. -/
theorem recorded (hw : w.methods[r]? = some .empty) (calls : List (MethodCall η)) :
    Recorded w r calls (registry w calls r) := by
  -- from the last call, since what it can install depends on what the others left
  induction calls using List.reverseRecOn with
  | nil =>
    have hempty : registry w [] r = .empty := by
      simp [registry, after, Array.getD_eq_getD_getElem?, hw]
    rw [hempty]
    exact .of_not_installed fun _ _ _ => installed_nil
  | append_singleton calls call ih =>
    have hr : r < (after w calls).methods.size := by
      rw [size_after]
      exact (Array.getElem?_eq_some_iff.1 hw).1
    rcases registry_concat call hr with
      ⟨rfl, hreg⟩ | ⟨methods, kind, distinct, rfl, hi, hok⟩ | ⟨hne, hreg, hno⟩
    · rw [hreg]
      exact .of_reset
    · obtain ⟨hfree, hreg⟩ := MethodRegistry.install_eq_ok.1 hi
      rw [hreg]
      exact ih.fill distinct hfree hok
    · rw [hreg]
      exact ih.keep hne hno

/-! ## Look-ups -/

variable {name kindName : String}

theorem Recorded.lookup_eq_some {reg : MethodRegistry η} (h : Recorded w r calls reg)
    {m : Method η} : reg.lookup name kindName = some m ↔
      ∃ before methods kind, Installed w r calls before methods kind ∧
        (kind = none ∨ kind = some kindName) ∧ (name, m.handler) ∈ methods ∧
          m = ⟨name, m.handler, kind⟩ := by
  have hcells : reg.lookup name kindName = some m ↔
      ∃ kind, (kind = none ∨ kind = some kindName) ∧ reg.cell kind name = some m := by
    rw [MethodRegistry.lookup_eq, Option.or_eq_some_iff]
    constructor
    · rintro (hm | ⟨-, hm⟩)
      · exact ⟨_, .inr rfl, hm⟩
      · exact ⟨_, .inl rfl, hm⟩
    · rintro ⟨kind, rfl | rfl, hm⟩
      · exact .inr ⟨h.apart name kindName (by simp [hm]), hm⟩
      · exact .inl hm
  rw [hcells]
  constructor
  · rintro ⟨kind, hk, hm⟩
    obtain ⟨before, methods, hi, hl⟩ := (h.holds kind name m).1 hm
    exact ⟨before, methods, kind, hi, hk, hl⟩
  · rintro ⟨before, methods, kind, hi, hk, hl⟩
    exact ⟨kind, hk, (h.holds kind name m).2 ⟨before, methods, hi, hl⟩⟩

/-- After an installation the names that it lists are refused wherever both would be seen. -/
theorem Installed.refused (hw : w.methods[r]? = some .empty) {handler : η}
    (hi : Installed w r calls before methods kind) (hl : (name, handler) ∈ methods)
    {methods' : List (String × η)} {kind' : Option String} {handler' : η}
    (hk : kind' = none ∨ kind = none ∨ kind = kind') (hl' : (name, handler') ∈ methods') :
    (perform (Work.installMethods r methods' kind') (after w calls)).1 ≠ .ok () := by
  have hrec := recorded hw calls
  have hcell : (registry w calls r).cell kind name = some ⟨name, handler, kind⟩ :=
    (hrec.holds _ _ _).2 ⟨before, methods, hi, hl, rfl⟩
  rcases Work.installMethods_cases (after w calls) r methods' kind' with
    ⟨e, -, hp⟩ | ⟨reg, j, hok, -⟩
  · simp [hp]
  · have hfree := (MethodRegistry.install_eq_ok.1 hok).1 _ hl'
    rw [((MethodRegistry.isTaken_eq_false hrec.kinds).1 hfree).2 kind hk] at hcell
    cases hcell

/-- The second of two installations that would both be seen under a name does not come later. -/
theorem Installed.eq_nil_of_append (hw : w.methods[r]? = some .empty)
    {between : List (MethodCall η)} {methods' : List (String × η)} {kind' : Option String}
    {handler handler' : η} (hi : Installed w r calls before methods kind)
    (hl : (name, handler) ∈ methods) (hl' : (name, handler') ∈ methods')
    (hk : kind' = none ∨ kind = none ∨ kind = kind')
    (hi' : Installed w r calls (before ++ between) methods' kind') : between = [] := by
  obtain ⟨distinct, later, rfl, hlater, hok⟩ := hi
  obtain ⟨distinct', later', hcalls, -, hok'⟩ := hi'
  rw [List.append_assoc, List.append_cancel_left_eq] at hcalls
  cases between with
  | nil => rfl
  | cons call mid =>
    obtain ⟨rfl, rfl⟩ := List.cons.inj hcalls
    have hmid : reset r ∉ mid := fun h => hlater (List.mem_append_left _ h)
    have hfirst : Installed w r (before ++ register r methods kind distinct :: mid) before
        methods kind := ⟨distinct, mid, rfl, hmid, hok⟩
    exact absurd hok' (hfirst.refused hw hl hk hl')

/-- At most one call installed what a kind sees under a name. -/
theorem Installed.unique (hw : w.methods[r]? = some .empty)
    {before' : List (MethodCall η)} {methods' : List (String × η)} {kind' : Option String}
    {handler handler' : η}
    (hi : Installed w r calls before methods kind) (hl : (name, handler) ∈ methods)
    (hk : kind = none ∨ kind = some kindName)
    (hi' : Installed w r calls before' methods' kind') (hl' : (name, handler') ∈ methods')
    (hk' : kind' = none ∨ kind' = some kindName) :
    before = before' ∧ methods = methods' ∧ kind = kind' := by
  have hseen : kind' = none ∨ kind = none ∨ kind = kind' := by
    rcases hk with rfl | rfl <;> rcases hk' with rfl | rfl <;> simp
  have hseen' : kind = none ∨ kind' = none ∨ kind' = kind := by
    rcases hk with rfl | rfl <;> rcases hk' with rfl | rfl <;> simp
  obtain ⟨distinct, later, hcalls, -⟩ := id hi
  obtain ⟨distinct', later', hcalls', -⟩ := id hi'
  have heq : before = before' := by
    rcases List.append_eq_append_iff.1 (hcalls.symm.trans hcalls') with
      ⟨between, rfl, -⟩ | ⟨between, rfl, -⟩
    · simp [hi.eq_nil_of_append hw hl hl' hseen hi']
    · simp [hi'.eq_nil_of_append hw hl' hl hseen' hi]
  subst heq
  rw [hcalls, List.append_cancel_left_eq, List.cons.injEq, register.injEq] at hcalls'
  exact ⟨rfl, hcalls'.1.2.1, hcalls'.1.2.2⟩

/-- Whatever is registered and reset, no name is both for all collections and for a kind, or hidden,
or the collection's own; a look-up finds what the one call installed that listed the name for all or
for the kind since the last reset; what it finds stays until a reset; and the names of a kind are
those that look-ups find, each once and in order. -/
theorem registry_unambiguous (w : Workspace η) (r : MethodsId)
    (hw : w.methods[r]? = some .empty) (calls : List (MethodCall η)) :
    (∀ name kind, ¬ (Assoc.contains (registry w calls r).general name = true ∧
      Assoc.contains ((registry w calls r).table kind) name = true)) ∧
    (∀ name, (Assoc.contains (registry w calls r).general name = true ∨
        ∃ kind, Assoc.contains ((registry w calls r).table kind) name = true) →
      MethodRegistry.isHidden name = false ∧ Names.has "Collection" name = false) ∧
    (∀ name kindName m, (registry w calls r).lookup name kindName = some m ↔
      ∃ before methods kind, Installed w r calls before methods kind ∧
        (kind = none ∨ kind = some kindName) ∧ (name, m.handler) ∈ methods ∧
          m = ⟨name, m.handler, kind⟩) ∧
    (∀ name kindName before methods kind handler before' methods' kind' handler',
      Installed w r calls before methods kind → (kind = none ∨ kind = some kindName) →
      (name, handler) ∈ methods →
      Installed w r calls before' methods' kind' → (kind' = none ∨ kind' = some kindName) →
      (name, handler') ∈ methods' →
      before = before' ∧ methods = methods' ∧ kind = kind') ∧
    (∀ name kindName m more, (registry w calls r).lookup name kindName = some m →
      reset r ∉ more → (registry w (calls ++ more) r).lookup name kindName = some m) ∧
    ∀ kindName, ((registry w calls r).names kindName).Pairwise (· < ·) ∧
      ∀ name, name ∈ (registry w calls r).names kindName ↔
        ((registry w calls r).lookup name kindName).isSome = true := by
  have h := recorded hw calls
  refine ⟨?_, ?_, ?_, ?_, ?_, ?_⟩
  · rintro name kind ⟨hg, ht⟩
    have hnone := h.apart name kind hg
    rw [Assoc.contains, show Assoc.get? _ name = none from hnone] at ht
    cases ht
  · intro name hm
    have hp : MethodRegistry.isHidden name = false ∧ name ∉ MethodRegistry.reserved := by
      rcases hm with hg | ⟨kind, ht⟩
      · exact h.proper none name hg
      · exact h.proper (some kind) name ht
    exact ⟨hp.1, Bool.eq_false_iff.2 (mt (has_collection_iff hp.1).1 hp.2)⟩
  · intro name kindName m
    exact h.lookup_eq_some
  · intro _ _ _ _ _ _ _ _ _ _ hi hk hl hi' hk' hl'
    exact hi.unique hw hl hk hi' hl' hk'
  · intro name kindName m more hm hmore
    obtain ⟨before, methods, kind, hi, hrest⟩ := h.lookup_eq_some.1 hm
    have hmany := recorded hw (calls ++ more)
    exact hmany.lookup_eq_some.2 ⟨before, methods, kind, hi.append hmore, hrest⟩
  · intro kindName
    exact ⟨MethodRegistry.pairwise_sorted _, fun name => MethodRegistry.mem_names_iff⟩

/-- A workspace with one registry, still empty. -/
def fresh : Workspace Nat :=
  ⟨.empty, .start "" default, ⟨[], fun _ _ => none⟩, #[], #[.empty], #[], 0, #[]⟩

/-- Methods for all, a mapping for a kind that is refused for one of its names, and its other
name alone. -/
def someCalls : List (MethodCall Nat) :=
  [register 0 [("wrap", 1), ("drop", 2)] none (by decide),
   register 0 [("rename", 3), ("wrap", 4)] (some "call") (by decide),
   register 0 [("rename", 5)] (some "call") (by decide)]

theorem registry_unambiguous_some :
    (registry fresh (someCalls ++ [register 0 [("rename", 6)] none (by decide)]) 0).lookup
      "rename" "call" = some ⟨"rename", 5, some "call"⟩ ∧
    Names.has "Collection" "rename" = false := by
  have h := registry_unambiguous fresh 0 rfl someCalls
  have hfound : (registry fresh someCalls 0).lookup "rename" "call" =
      some ⟨"rename", 5, some "call"⟩ := by decide +kernel
  have htyped : Assoc.contains ((registry fresh someCalls 0).table "call") "rename" = true := by
    decide +kernel
  exact ⟨h.2.2.2.2.1 "rename" "call" _ _ hfound (by simp),
    (h.2.1 "rename" (.inr ⟨"call", htyped⟩)).2⟩

end MethodCall

end Retouch
