import Retouch.Proofs.Registrations

/-!
# Registrations take effect as a whole

A mapping of methods is checked name by name before any of them is installed. What bars a name is
known beforehand (`Barred`), and the names of a mapping are different, so nothing that is installed
first can get in the way of what comes later: a mapping without a barred name is installed whole,
and one with a barred name is refused for the first of them and leaves the registry as it was
(`registration_all_or_nothing`).
-/

namespace Retouch

namespace MethodRegistry

variable {η : Type}

/-- What bars a name. A method for all collections is in the way of every other of its name; one for
a kind is in the way of those for all and of those for the same kind. -/
inductive Barred (r : MethodRegistry η) : Option String → String → Prop
  | hidden {kind : Option String} {name : String} (h : name.toList.head? = some '_') :
      Barred r kind name
  | own {kind : Option String} {name : String} (h : Names.has "Collection" name = true) :
      Barred r kind name
  | general {kind : Option String} {name : String} (h : Assoc.contains r.general name = true) :
      Barred r kind name
  | anyKind {name k : String} (h : Assoc.contains (r.table k) name = true) : Barred r none name
  | sameKind {name k : String} (h : Assoc.contains (r.table k) name = true) : Barred r (some k) name

/-- The first of several names that is barred. -/
def FirstBarred (r : MethodRegistry η) (kind : Option String) (names : List String)
    (name : String) : Prop :=
  ∃ earlier later, names = earlier ++ name :: later ∧ r.Barred kind name ∧
    ∀ n ∈ earlier, ¬ r.Barred kind n

variable {r r' : MethodRegistry η} {kind : Option String} {methods : List (String × η)}
  {name k : String}

theorem isHidden_or_reserved : isHidden name = true ∨ name ∈ reserved ↔
    name.toList.head? = some '_' ∨ Names.has "Collection" name = true := by
  have hhead : isHidden name = true ↔ name.toList.head? = some '_' := by simp [isHidden]
  rw [← hhead]
  by_cases hhidden : isHidden name = true
  · simp [hhidden]
  · simp [hhidden, has_collection_iff (Bool.eq_false_iff.2 hhidden)]

theorem isTaken_iff_barred (h : (Assoc.keys r.typed).Nodup) :
    r.isTaken kind name = true ↔ r.Barred kind name := by
  rw [isTaken, Bool.or_eq_true, Bool.or_eq_true, List.contains_eq_mem, decide_eq_true_eq,
    isHidden_or_reserved, conflicts_iff h]
  constructor
  · rintro ((hhead | hown) | ⟨_ | k, hk, hcell⟩)
    · exact .hidden hhead
    · exact .own hown
    · exact .general hcell
    · rcases hk with rfl | hk | rfl
      · exact .anyKind hcell
      · cases hk
      · exact .sameKind hcell
  · intro hbar
    cases hbar with
    | hidden hhead => exact .inl (.inl hhead)
    | own hown => exact .inl (.inr hown)
    | general hcell => exact .inr ⟨none, .inr (.inl rfl), hcell⟩
    | anyKind hcell => exact .inr ⟨some _, .inl rfl, hcell⟩
    | sameKind hcell => exact .inr ⟨some _, .inr (.inr rfl), hcell⟩

theorem find?_isTaken (h : (Assoc.keys r.typed).Nodup) {names : List String} :
    names.find? (r.isTaken kind) = some name ↔ r.FirstBarred kind names name := by
  simp only [List.find?_eq_some_iff_append, FirstBarred, isTaken_iff_barred h, Bool.not_eq_true',
    Bool.eq_false_iff, ne_eq]
  constructor
  · rintro ⟨hbar, earlier, later, hnames, hfree⟩
    exact ⟨earlier, later, hnames, hbar, hfree⟩
  · rintro ⟨earlier, later, hnames, hbar, hfree⟩
    exact ⟨hbar, earlier, later, hnames, hfree⟩

/-- A mapping is refused for its first barred name. -/
theorem install_eq_error (h : (Assoc.keys r.typed).Nodup) {e : ToolError} :
    r.install methods kind = .error e ↔
      ∃ name, r.FirstBarred kind (methods.map Prod.fst) name ∧ e = .duplicateMethod name kind := by
  simp only [← find?_isTaken h]
  unfold install
  split
  · rename_i first hfirst
    constructor
    · rintro ⟨⟩
      exact ⟨first, hfirst, rfl⟩
    · rintro ⟨name, hname, rfl⟩
      cases hfirst.symm.trans hname
      rfl
  · rename_i hnone
    simp [hnone]

theorem install_fails_iff (h : (Assoc.keys r.typed).Nodup) :
    (∃ e, r.install methods kind = .error e) ↔ ∃ m ∈ methods, r.Barred kind m.1 := by
  simp only [← isTaken_iff_barred h]
  rcases hi : r.install methods kind with e | r'
  · obtain ⟨name, ⟨earlier, later, hnames, hbar, -⟩, -⟩ := (install_eq_error h).1 hi
    have hmem : name ∈ methods.map Prod.fst := by simp [hnames]
    obtain ⟨m, hm, rfl⟩ := List.mem_map.1 hmem
    exact iff_of_true ⟨e, rfl⟩ ⟨m, hm, (isTaken_iff_barred h).2 hbar⟩
  · have hfree := (install_eq_ok.1 hi).1
    refine iff_of_false (by simp) ?_
    rintro ⟨m, hm, htaken⟩
    rw [hfree m hm] at htaken
    cases htaken

/-! ## What an installation changes -/

/-- Nothing is to be seen under a name that is not taken, where a method of the kind would be. -/
theorem lookup_eq_none (h : (Assoc.keys r.typed).Nodup) (hfree : r.isTaken kind name = false)
    (hk : kind = none ∨ kind = some k) : r.lookup name k = none := by
  obtain ⟨-, hcells⟩ := (isTaken_eq_false h).1 hfree
  rw [lookup_eq, hcells (some k) (by rcases hk with rfl | rfl <;> simp),
    hcells none (.inr (.inl rfl))]
  rfl

section Installed

variable (h : (Assoc.keys r.typed).Nodup) (distinct : (methods.map Prod.fst).Nodup)
  (hi : r.install methods kind = .ok r')

include distinct hi

theorem lookup_kept (hno : ¬ (name ∈ methods.map Prod.fst ∧ (kind = none ∨ kind = some k))) :
    r'.lookup name k = r.lookup name k := by
  obtain ⟨-, rfl⟩ := install_eq_ok.1 hi
  have hcell : ∀ place, (kind = place → kind = none ∨ kind = some k) →
      (methods.foldl (fun r m => r.put kind m.1 m.2) r).cell place name = r.cell place name := by
    intro place hplace
    rw [cell_puts kind place name methods r distinct]
    split_ifs with hk
    · have hnone : Assoc.get? methods name = none :=
        Assoc.get?_eq_none_iff_not_mem.2 fun hn => hno ⟨hn, hplace hk⟩
      rw [hnone]
      rfl
    · rfl
  rw [lookup_eq, lookup_eq, hcell (some k) .inr, hcell none .inl]

include h

theorem lookup_installed {handler : η} (hm : (name, handler) ∈ methods)
    (hk : kind = none ∨ kind = some k) :
    r.lookup name k = none ∧ r'.lookup name k = some ⟨name, handler, kind⟩ := by
  obtain ⟨hfree, rfl⟩ := install_eq_ok.1 hi
  have hnone := lookup_eq_none h (hfree _ hm) hk
  have hget : Assoc.get? methods name = some handler := (Assoc.get?_eq_some_iff distinct).2 hm
  refine ⟨hnone, ?_⟩
  rw [lookup_eq] at hnone ⊢
  obtain ⟨hown, -⟩ := Option.or_eq_none_iff.1 hnone
  -- a method for all is seen if nothing of the kind stands before it
  rcases hk with rfl | rfl
  · simp [cell_puts none _ name methods r distinct, hget, hown]
  · simp [cell_puts (some k) _ name methods r distinct, hget]

end Installed

end MethodRegistry

namespace MethodCall

variable {η : Type}

/-- A registration is refused and leaves the registry as it was, or installs the mapping in it. -/
theorem registry_register {w : Workspace η} {r : MethodsId} (hr : r < w.methods.size)
    (calls : List (MethodCall η)) {methods : List (String × η)}
    (distinct : (methods.map Prod.fst).Nodup) (kind : Option String) :
    (∃ e, (registry w calls r).install methods kind = .error e ∧
      (perform (Work.installMethods r methods kind) (after w calls)).1 = .error (.tool e) ∧
      registry w (calls ++ [register r methods kind distinct]) r = registry w calls r) ∨
    ((perform (Work.installMethods r methods kind) (after w calls)).1 = .ok () ∧
      (registry w calls r).install methods kind =
        .ok (registry w (calls ++ [register r methods kind distinct]) r)) := by
  rw [← size_after w calls] at hr
  rcases registry_concat (register r methods kind distinct) hr with
    ⟨hc, -⟩ | ⟨_, _, _, hc, hi, hok⟩ | ⟨-, hsame, hno⟩
  · cases hc
  · injection hc with _ hms hk
    subst hms hk
    exact .inr ⟨hok, hi⟩
  · rcases Work.installMethods_cases (after w calls) r methods kind with ⟨e, hi, hp⟩ | ⟨_, _, -, hp⟩
    · exact .inl ⟨e, hi, by rw [hp], hsame⟩
    · exact absurd (by rw [hp]) (hno methods kind distinct rfl)

/-- A registration fails exactly if a name of the mapping is barred, and then names the first one
and changes nothing that can be looked up. Otherwise look-ups change for the names of the mapping,
to the methods that it gives, and on the kinds that they are for; there was nothing under them. -/
theorem registration_all_or_nothing (w : Workspace η) (r : MethodsId)
    (hw : w.methods[r]? = some .empty) (calls : List (MethodCall η)) (methods : List (String × η))
    (distinct : (methods.map Prod.fst).Nodup) (kind : Option String) :
    ((∃ fault, (perform (Work.installMethods r methods kind) (after w calls)).1 = .error fault) ↔
      ∃ m ∈ methods, (registry w calls r).Barred kind m.1) ∧
    (∀ fault, (perform (Work.installMethods r methods kind) (after w calls)).1 = .error fault →
      (∃ name, (registry w calls r).FirstBarred kind (methods.map Prod.fst) name ∧
        fault = .tool (.duplicateMethod name kind)) ∧
      ∀ k, (registry w (calls ++ [register r methods kind distinct]) r).names k =
          (registry w calls r).names k ∧
        ∀ name, (registry w (calls ++ [register r methods kind distinct]) r).lookup name k =
          (registry w calls r).lookup name k) ∧
    ((perform (Work.installMethods r methods kind) (after w calls)).1 = .ok () → ∀ name k,
      ((registry w (calls ++ [register r methods kind distinct]) r).lookup name k ≠
          (registry w calls r).lookup name k ↔
        name ∈ methods.map Prod.fst ∧ (kind = none ∨ kind = some k)) ∧
      ∀ handler, (name, handler) ∈ methods → kind = none ∨ kind = some k →
        (registry w calls r).lookup name k = none ∧
        (registry w (calls ++ [register r methods kind distinct]) r).lookup name k =
          some ⟨name, handler, kind⟩) := by
  have hkinds := (recorded hw calls).kinds
  rw [← MethodRegistry.install_fails_iff hkinds]
  rcases registry_register (Array.getElem?_eq_some_iff.1 hw).1 calls distinct kind with
    ⟨e, hi, hout, hsame⟩ | ⟨hout, hi⟩
  · refine ⟨iff_of_true ⟨_, hout⟩ ⟨e, hi⟩, fun fault hf => ⟨?_, fun k => ?_⟩, fun hok => ?_⟩
    · obtain ⟨name, hfirst, rfl⟩ := (MethodRegistry.install_eq_error hkinds).1 hi
      cases hout.symm.trans hf
      exact ⟨name, hfirst, rfl⟩
    · rw [hsame]
      exact ⟨rfl, fun _ => rfl⟩
    · cases hout.symm.trans hok
  · refine ⟨iff_of_false ?_ ?_, fun fault hf => ?_, fun _ name k => ?_⟩
    · rintro ⟨fault, hf⟩
      cases hout.symm.trans hf
    · rintro ⟨e, he⟩
      cases hi.symm.trans he
    · cases hout.symm.trans hf
    · have hnew := fun handler (hm : (name, handler) ∈ methods) =>
        MethodRegistry.lookup_installed (k := k) hkinds distinct hi hm
      refine ⟨⟨fun hne => ?_, ?_⟩, hnew⟩
      · by_contra hno
        exact hne (MethodRegistry.lookup_kept distinct hi hno)
      · rintro ⟨hname, hk⟩
        obtain ⟨⟨_, handler⟩, hm, rfl⟩ := List.mem_map.1 hname
        obtain ⟨hnone, hsome⟩ := hnew handler hm hk
        rw [hnone, hsome]
        exact Option.some_ne_none _

theorem registration_all_or_nothing_some :
    (perform (Work.installMethods 0 [("spare", 7), ("rename", 8), ("wrap", 9)] none)
      (after fresh someCalls)).1 = .error (.tool (.duplicateMethod "rename" none)) ∧
    (registry fresh (someCalls ++ [register 0 [("spare", 7), ("rename", 8), ("wrap", 9)] none
      (by decide)]) 0).lookup "spare" "call" = (registry fresh someCalls 0).lookup "spare" "call" ∧
    (registry fresh (someCalls ++ [register 0 [("spare", 7), ("rename", 8)] (some "leaf")
      (by decide)]) 0).lookup "rename" "leaf" = some ⟨"rename", 8, some "leaf"⟩ := by
  have hrefused := registration_all_or_nothing fresh 0 rfl someCalls
    [("spare", 7), ("rename", 8), ("wrap", 9)] (by decide) none
  have hinstalled := registration_all_or_nothing fresh 0 rfl someCalls
    [("spare", 7), ("rename", 8)] (by decide) (some "leaf")
  have htaken : Assoc.contains ((registry fresh someCalls 0).table "call") "rename" = true := by
    decide +kernel
  obtain ⟨fault, hfault⟩ := hrefused.1.2 ⟨("rename", 8), by simp, .anyKind htaken⟩
  obtain ⟨⟨name, hfirst, rfl⟩, hkept⟩ := hrefused.2.1 fault hfault
  have hfind : ["spare", "rename", "wrap"].find? ((registry fresh someCalls 0).isTaken none) =
      some "rename" := by decide +kernel
  have hkinds := (recorded (w := fresh) (r := 0) rfl someCalls).kinds
  cases hfind.symm.trans ((MethodRegistry.find?_isTaken hkinds).2 hfirst)
  have hok : (perform (Work.installMethods 0 [("spare", 7), ("rename", 8)] (some "leaf"))
      (after fresh someCalls)).1 = .ok () := eq_ok_of_toOption (by decide +kernel)
  refine ⟨hfault, (hkept "call").2 "spare", ?_⟩
  exact ((hinstalled.2.2 hok "rename" "leaf").2 8 (by simp) (.inr rfl)).2

end MethodCall

end Retouch
