import Mathlib.Algebra.BigOperators.Fin
import Mathlib.Algebra.Order.BigOperators.Group.Finset
import Mathlib.Data.List.Nodup
import Retouch.EntryPoint
import Retouch.Proofs.Registrations

/-!
# Setups that ask for plugins

A setup runs its steps in order and waits for the setups of the plugins it asks for (`Sets`). The
entry point runs one list of steps instead, with a bound on their number. The bound is never
reached: what a run still has to do is bounded by the steps it has and the setups not yet started
(`run_append`). So every use ends as its nested setups do, and over any uses of entry points that
share a registry each plugin is started by the first use that reaches it (`plugins_start_once`).
-/

namespace Retouch

/-- What happens to plugins while they are set up. -/
inductive PluginEvent where
  | reached (plugin : PluginId) (entry : EntryPoint)
  | started (plugin : PluginId) (entry : EntryPoint)
  | raised (plugin : PluginId) (fault : Fault)

namespace PluginEvent

/-- The plugins asked for, each with the entry point it was asked for at. -/
def uses (events : List PluginEvent) : List (PluginId × EntryPoint) :=
  events.filterMap fun
    | reached p e => some (p, e)
    | _ => none

/-- The plugins started, each with the entry point given to its setup. -/
def starts (events : List PluginEvent) : List (PluginId × EntryPoint) :=
  events.filterMap fun
    | started p e => some (p, e)
    | _ => none

@[simp]
theorem uses_append (events more : List PluginEvent) :
    uses (events ++ more) = uses events ++ uses more :=
  List.filterMap_append

@[simp]
theorem starts_append (events more : List PluginEvent) :
    starts (events ++ more) = starts events ++ starts more :=
  List.filterMap_append

theorem mem_starts {events : List PluginEvent} {p : PluginId} {e : EntryPoint} :
    (p, e) ∈ starts events ↔ started p e ∈ events := by
  unfold starts
  rw [List.mem_filterMap]
  constructor
  · rintro ⟨event, hm, he⟩
    cases event with
    | started p' e' =>
      cases he
      exact hm
    | reached p' e' => cases he
    | raised p' f => cases he
  · exact fun hm => ⟨_, hm, rfl⟩

end PluginEvent

namespace Plugin

open PluginEvent

variable {η : Type}

/-- The plugins that a workspace lists in a registry. -/
def listed (w : Workspace η) (r : PluginsId) : List PluginId :=
  w.plugins.getD r []

/-- A workspace in which a plugin was asked for. -/
def entered (family : Array (Plugin η)) (r : PluginsId) (p : PluginId) (w : Workspace η) :
    Workspace η :=
  (perform (begin family r p) w).2

/-- Setups with an entry point: what happens to plugins, how the steps end, and what they leave. A
step that asks for a plugin not listed waits for the setup of the plugin, and the first fault ends
all setups that wait. -/
inductive Sets (family : Array (Plugin η)) (e : EntryPoint) : List (SetupStep η) → Workspace η →
    List PluginEvent → Except Fault Unit → Workspace η → Prop
  | done {w : Workspace η} : Sets family e [] w [] (.ok ()) w
  | install {methods : List (String × η)} {kind : Option String} {rest : List (SetupStep η)}
      {w w₁ w' : Workspace η} {events : List PluginEvent} {o : Except Fault Unit}
      (h : perform (Work.installMethods e.methods methods kind) w = (.ok (), w₁))
      (hrest : Sets family e rest w₁ events o w') :
      Sets family e (.install methods kind :: rest) w events o w'
  | refused {methods : List (String × η)} {kind : Option String} {rest : List (SetupStep η)}
      {w w₁ : Workspace η} {f : Fault}
      (h : perform (Work.installMethods e.methods methods kind) w = (.error f, w₁)) :
      Sets family e (.install methods kind :: rest) w [] (.error f) w₁
  | note {text : Option String} {rest : List (SetupStep η)} {w w' : Workspace η}
      {events : List PluginEvent} {o : Except Fault Unit}
      (hrest : Sets family e rest { w with trail := w.trail.push text } events o w') :
      Sets family e (.note text :: rest) w events o w'
  | fail {f : Fault} {rest : List (SetupStep η)} {w : Workspace η} :
      Sets family e (.fail f :: rest) w [] (.error f) w
  | known {q : PluginId} {rest : List (SetupStep η)} {w w' : Workspace η}
      {events : List PluginEvent} {o : Except Fault Unit} (h : q ∈ listed w e.plugins)
      (hrest : Sets family e rest (entered family e.plugins q w) events o w') :
      Sets family e (.use q :: rest) w (reached q e :: events) o w'
  | new {q : PluginId} {rest : List (SetupStep η)} {w w₁ w' : Workspace η}
      {events more : List PluginEvent} {o : Except Fault Unit} (h : q ∉ listed w e.plugins)
      (hsetup : Sets family e (family.getD q default).setup (entered family e.plugins q w) events
        (.ok ()) w₁)
      (hrest : Sets family e rest w₁ more o w') :
      Sets family e (.use q :: rest) w (reached q e :: started q e :: (events ++ more)) o w'
  | raise {q : PluginId} {rest : List (SetupStep η)} {w w₁ : Workspace η}
      {events : List PluginEvent} {f : Fault} (h : q ∉ listed w e.plugins)
      (hsetup : Sets family e (family.getD q default).setup (entered family e.plugins q w) events
        (.error f) w₁) :
      Sets family e (.use q :: rest) w (reached q e :: started q e :: (events ++ [raised q f]))
        (.error f) w₁

variable {family : Array (Plugin η)} {e : EntryPoint} {r : PluginsId} {q : PluginId}
  {w w' : Workspace η}

/-! ## Asking for a plugin -/

theorem begin_known (family : Array (Plugin η)) (h : q ∈ listed w r) :
    ∃ j, perform (begin family r q) w = (.ok none, { w with journal := j }) := by
  obtain ⟨j, hj⟩ := Work.perform_trace w "plugins" "plugin_already_registered"
    [("plugin", .text (family.getD q default).name)] (by simp [reservedNames])
  refine ⟨j, ?_⟩
  have hlist : perform (Work.plugins r) w = (.ok (listed w r), w) := rfl
  unfold begin
  rw [perform_bind_of_ok hlist, if_pos (List.contains_iff_mem.2 h), perform_bind_of_ok hj]
  rfl

theorem begin_new (family : Array (Plugin η)) (h : q ∉ listed w r) :
    ∃ j, perform (begin family r q) w = (.ok (some (family.getD q default).setup),
      { w with plugins := w.plugins.modify r (· ++ [q]), journal := j }) := by
  obtain ⟨j, hj⟩ := Work.perform_trace { w with plugins := w.plugins.modify r (· ++ [q]) }
    "plugins" "plugin_registered" [("plugin", .text (family.getD q default).name)]
    (by simp [reservedNames])
  refine ⟨j, ?_⟩
  have hlist : perform (Work.plugins r) w = (.ok (listed w r), w) := rfl
  unfold begin
  rw [perform_bind_of_ok hlist, if_neg (mt List.contains_iff_mem.1 h),
    perform_bind_of_ok (perform_modify _ _), perform_bind_of_ok hj]
  rfl

theorem perform_begin (family : Array (Plugin η)) (r : PluginsId) (q : PluginId)
    (w : Workspace η) :
    perform (begin family r q) w = (.ok (if q ∈ listed w r then none
      else some (family.getD q default).setup), entered family r q w) := by
  unfold entered
  by_cases h : q ∈ listed w r
  · obtain ⟨j, hj⟩ := begin_known family h
    rw [hj, if_pos h]
  · obtain ⟨j, hj⟩ := begin_new family h
    rw [hj, if_neg h]

theorem plugins_entered_known (h : q ∈ listed w r) :
    (entered family r q w).plugins = w.plugins := by
  obtain ⟨j, hj⟩ := begin_known family h
  simp [entered, hj]

theorem plugins_entered_new (h : q ∉ listed w r) :
    (entered family r q w).plugins = w.plugins.modify r (· ++ [q]) := by
  obtain ⟨j, hj⟩ := begin_new family h
  simp [entered, hj]

theorem listed_of_plugins (h : w'.plugins = w.plugins) : listed w' r = listed w r := by
  unfold listed
  rw [h]

theorem listed_entered_new (family : Array (Plugin η)) (hr : r < w.plugins.size)
    (h : q ∉ listed w r) : listed (entered family r q w) r = listed w r ++ [q] := by
  unfold listed
  rw [plugins_entered_new h, Array.getD_eq_getD_getElem?, Array.getElem?_modify,
    Array.getD_eq_getD_getElem?]
  simp [hr]

theorem size_entered : (entered family r q w).plugins.size = w.plugins.size := by
  by_cases h : q ∈ listed w r
  · rw [plugins_entered_known h]
  · rw [plugins_entered_new h, Array.size_modify]

theorem plugins_of_install {m : MethodsId} {methods : List (String × η)} {kind : Option String}
    {o : Except Fault Unit} (h : perform (Work.installMethods m methods kind) w = (o, w')) :
    w'.plugins = w.plugins := by
  rcases Work.installMethods_cases w m methods kind with ⟨f, -, hi⟩ | ⟨reg, j, -, hi⟩ <;>
    · rw [hi] at h
      obtain ⟨-, rfl⟩ := Prod.mk.inj h
      rfl

/-! ## Setups end -/

/-- How many steps the setups have that are not yet started. -/
def remaining (family : Array (Plugin η)) (started : List PluginId) : Nat :=
  ∑ p ∈ (Finset.range family.size).filter (· ∉ started), (family.getD p default).setup.length

/-- A plugin that starts takes its steps from those that remain. -/
theorem remaining_start (family : Array (Plugin η)) {started : List PluginId} (h : q ∉ started) :
    remaining family (started ++ [q]) + (family.getD q default).setup.length =
      remaining family started := by
  have herase : (Finset.range family.size).filter (· ∉ started ++ [q]) =
      ((Finset.range family.size).filter (· ∉ started)).erase q := by
    ext p
    simp only [Finset.mem_filter, Finset.mem_range, List.mem_append, List.mem_singleton, not_or,
      Finset.mem_erase]
    tauto
  unfold remaining
  rw [herase, Nat.add_comm]
  by_cases hq : q < family.size
  · exact Finset.add_sum_erase _ (fun p => (family.getD p default).setup.length) (by simp [hq, h])
  · have hempty : (family.getD q default).setup = [] := by
      rw [Array.getD_eq_getD_getElem?, Array.getElem?_eq_none (Nat.le_of_not_lt hq)]
      rfl
    rw [hempty, Finset.erase_eq_of_notMem (by simp [hq])]
    simp

theorem remaining_lt_budget (family : Array (Plugin η)) (started : List PluginId) :
    remaining family started < budget family := by
  have hsum : ∑ p ∈ Finset.range family.size, (family.getD p default).setup.length =
      (family.toList.map fun p => p.setup.length).sum := by
    rw [Finset.sum_range, ← Fin.sum_univ_fun_getElem]
    simp
  have hfold : ∀ plugins : List (Plugin η), (plugins.map fun p => p.setup.length).sum ≤
      plugins.foldr (fun p steps => p.setup.length + 1 + steps) 0 := by
    intro plugins
    induction plugins with
    | nil => exact Nat.le_refl 0
    | cons p rest ih =>
      simp only [List.map_cons, List.sum_cons, List.foldr_cons]
      omega
  have hle : remaining family started ≤
      ∑ p ∈ Finset.range family.size, (family.getD p default).setup.length :=
    Finset.sum_le_sum_of_subset (Finset.filter_subset _ _)
  have hbound := hfold family.toList
  unfold budget
  omega

/-- A run of steps comes to an end in which `rest` is still to be done: a fault is the end of all,
and otherwise `rest` goes on with what is left of the bound, which is still enough for it. -/
def Reaches (family : Array (Plugin η)) (e : EntryPoint) (fuel : Nat)
    (steps rest : List (SetupStep η)) (w : Workspace η) (o : Except Fault Unit)
    (w' : Workspace η) : Prop :=
  w'.plugins.size = w.plugins.size ∧
    match o with
    | .error f => perform (run family e fuel steps) w = (.error f, w')
    | .ok () => ∃ left ≤ fuel, rest.length + remaining family (listed w' e.plugins) ≤ left ∧
        perform (run family e fuel steps) w = perform (run family e left rest) w'

theorem Reaches.trans {fuel fuel' : Nat} {steps steps' rest : List (SetupStep η)}
    {w₁ : Workspace η} {o : Except Fault Unit} (h : Reaches family e fuel' steps' rest w₁ o w')
    (hle : fuel' ≤ fuel) (hsize : w₁.plugins.size = w.plugins.size)
    (hrun : perform (run family e fuel steps) w = perform (run family e fuel' steps') w₁) :
    Reaches family e fuel steps rest w o w' := by
  obtain ⟨hw, h⟩ := h
  refine ⟨hw.trans hsize, ?_⟩
  cases o with
  | error f => exact hrun.trans h
  | ok =>
    obtain ⟨left, hleft, hrest, h⟩ := h
    exact ⟨left, Nat.le_trans hleft hle, hrest, hrun.trans h⟩

/-- Steps in front of others run as setups do. -/
theorem run_append (family : Array (Plugin η)) (e : EntryPoint) (fuel : Nat)
    (steps rest : List (SetupStep η)) (w : Workspace η) (hr : e.plugins < w.plugins.size)
    (hfuel : steps.length + rest.length + remaining family (listed w e.plugins) ≤ fuel) :
    ∃ events o w', Sets family e steps w events o w' ∧
      Reaches family e fuel (steps ++ rest) rest w o w' := by
  -- on the bound and not on the steps, since a setup that starts puts its own steps in front
  induction fuel using Nat.strong_induction_on generalizing steps rest w with
  | _ fuel ih =>
  rcases steps with _ | ⟨step, steps⟩
  · exact ⟨[], .ok (), w, .done, rfl, fuel, Nat.le_refl _, by simpa using hfuel, rfl⟩
  rcases fuel with _ | fuel
  · simp at hfuel
  simp only [List.length_cons] at hfuel
  have hlt := Nat.lt_succ_self fuel
  cases step with
  | install methods kind =>
    have hrun : ∀ w, perform (run family e (fuel + 1) (.install methods kind :: steps ++ rest)) w =
        perform (Work.installMethods e.methods methods kind >>=
          fun _ => run family e fuel (steps ++ rest)) w := fun _ => rfl
    rcases hi : perform (Work.installMethods e.methods methods kind) w with ⟨f | u, w₁⟩ <;>
      have hplugins := plugins_of_install hi
    · exact ⟨[], .error f, w₁, .refused hi, congrArg _ hplugins, by rw [hrun, perform_bind, hi]⟩
    · have hlisted : listed w₁ e.plugins = listed w e.plugins := listed_of_plugins hplugins
      have hsize : w₁.plugins.size = w.plugins.size := congrArg _ hplugins
      obtain ⟨events, o, w', hs, hreach⟩ := ih fuel hlt steps rest w₁ (hsize ▸ hr)
        (by rw [hlisted]; omega)
      exact ⟨events, o, w', .install hi hs, hreach.trans (Nat.le_succ _) hsize
        ((hrun w).trans (perform_bind_of_ok hi _))⟩
  | use q =>
    have hrun : perform (run family e (fuel + 1) (.use q :: steps ++ rest)) w =
        perform (run family e fuel ((if q ∈ listed w e.plugins then []
          else (family.getD q default).setup) ++ (steps ++ rest)))
          (entered family e.plugins q w) := by
      refine (perform_bind_of_ok (perform_begin family e.plugins q w) _).trans ?_
      split <;> rfl
    by_cases h : q ∈ listed w e.plugins
    · have hlisted : listed (entered family e.plugins q w) e.plugins = listed w e.plugins :=
        listed_of_plugins (plugins_entered_known h)
      obtain ⟨events, o, w', hs, hreach⟩ := ih fuel hlt steps rest
        (entered family e.plugins q w) (size_entered.symm ▸ hr) (by rw [hlisted]; omega)
      rw [if_pos h, List.nil_append] at hrun
      exact ⟨_, o, w', .known h hs, hreach.trans (Nat.le_succ _) size_entered hrun⟩
    · have hlisted := listed_entered_new family hr h
      have hstart := remaining_start family h
      obtain ⟨events, o, w₁, hs, hreach⟩ := ih fuel hlt (family.getD q default).setup
        (steps ++ rest) (entered family e.plugins q w) (size_entered.symm ▸ hr)
        (by rw [hlisted, List.length_append]; omega)
      rw [if_neg h] at hrun
      cases o with
      | error f =>
        exact ⟨_, .error f, w₁, .raise h hs, hreach.trans (Nat.le_succ _) size_entered hrun⟩
      | ok =>
        -- the setup is done, and the steps behind it go on from where it left
        obtain ⟨hsize, left, hle, hleft, hdone⟩ := hreach
        obtain ⟨more, o, w', hs', hreach⟩ := ih left (Nat.lt_of_le_of_lt hle hlt)
          steps rest w₁ (by rw [hsize, size_entered]; exact hr)
          (by rw [List.length_append] at hleft; omega)
        exact ⟨_, o, w', .new h hs hs', hreach.trans (Nat.le_succ_of_le hle)
          (hsize.trans size_entered) (hrun.trans hdone)⟩
  | note text =>
    obtain ⟨events, o, w', hs, hreach⟩ := ih fuel hlt steps rest
      { w with trail := w.trail.push text } hr (by
        have hlisted : listed { w with trail := w.trail.push text } e.plugins =
          listed w e.plugins := rfl
        rw [hlisted]
        omega)
    exact ⟨events, o, w', .note hs, hreach.trans (Nat.le_succ _) rfl rfl⟩
  | fail f => exact ⟨[], .error f, w, .fail, rfl, rfl⟩

theorem register_known (family : Array (Plugin η)) (h : q ∈ listed w r) :
    perform (register family r q e) w = (.ok false, entered family r q w) := by
  unfold register
  rw [perform_bind_of_ok (perform_begin family r q w), if_pos h]
  rfl

theorem register_new (family : Array (Plugin η)) (h : q ∉ listed w r) :
    perform (register family r q e) w =
      perform (run family e (budget family) (family.getD q default).setup >>= fun _ => pure true)
        (entered family r q w) := by
  unfold register
  rw [perform_bind_of_ok (perform_begin family r q w), if_neg h]

/-- A use ends as the setups do that it starts. -/
theorem use_sets (family : Array (Plugin η)) (p : PluginId) (hr : e.plugins < w.plugins.size) :
    ∃ events o w', Sets family e [.use p] w events o w' ∧ w'.plugins.size = w.plugins.size ∧
      perform (e.use family p) w = (o, w') := by
  have huse : perform (e.use family p) w = match perform (register family e.plugins p e) w with
      | (.ok _, w') => (.ok (), w')
      | (.error f, w') => (.error f, w') := by
    unfold EntryPoint.use
    rw [perform_bind]
    rcases perform (register family e.plugins p e) w with ⟨f | b, w'⟩ <;> rfl
  by_cases h : p ∈ listed w e.plugins
  · refine ⟨_, _, _, .known h .done, size_entered, ?_⟩
    rw [huse, register_known family h]
  · obtain ⟨events, o, w', hs, hsize, hrun⟩ := run_append family e (budget family)
      (family.getD p default).setup [] (entered family e.plugins p w) (size_entered.symm ▸ hr) (by
        have hstart := remaining_start family h
        have hbound := remaining_lt_budget family (listed w e.plugins)
        rw [listed_entered_new family hr h, List.length_nil]
        omega)
    rw [List.append_nil] at hrun
    rw [huse, register_new family h]
    cases o with
    | error f =>
      refine ⟨_, .error f, w', .raise h hs, hsize.trans size_entered, ?_⟩
      rw [perform_bind, hrun]
    | ok =>
      obtain ⟨left, -, -, hrun⟩ := hrun
      have hdone : perform (run family e left []) w' = (.ok (), w') := by
        unfold run
        rfl
      refine ⟨_, .ok (), w', .new h hs .done, hsize.trans size_entered, ?_⟩
      rw [perform_bind_of_ok (hrun.trans hdone)]
      rfl

/-! ## Plugins start in the order of their first uses -/

/-- From one list of plugins to another, the plugins that start are put behind, and they are those
not listed before, with the entry points of their first uses. -/
structure Tracked (before : List PluginId) (events : List PluginEvent) (after : List PluginId) :
    Prop where
  grows : after = before ++ (starts events).map Prod.fst
  nodup : before.Nodup → after.Nodup
  first : ∀ q e, (q, e) ∈ starts events ↔ q ∉ before ∧ Assoc.get? (uses events) q = some e

namespace Tracked

variable {before middle after : List PluginId} {events more : List PluginEvent}

theorem nil (before : List PluginId) : Tracked before [] before where
  grows := by simp [starts]
  nodup h := h
  first q e := by simp [starts, uses]

theorem raised (before : List PluginId) (q : PluginId) (f : Fault) :
    Tracked before [.raised q f] before where
  grows := by simp [starts]
  nodup h := h
  first q e := by simp [starts, uses]

theorem known (h : q ∈ before) (e : EntryPoint) : Tracked before [reached q e] before where
  grows := by simp [starts]
  nodup h := h
  first p e' := by
    simp only [starts, uses, List.filterMap_cons, List.filterMap_nil, List.not_mem_nil, false_iff,
      not_and, Assoc.get?, beq_iff_eq]
    intro hp
    have hne : q ≠ p := by
      rintro rfl
      exact hp h
    simp [hne]

theorem new (h : q ∉ before) (e : EntryPoint) :
    Tracked before [reached q e, started q e] (before ++ [q]) where
  grows := by simp [starts]
  nodup hn := by
    rw [List.nodup_append_comm, List.singleton_append, List.nodup_cons]
    exact ⟨h, hn⟩
  first p e' := by
    simp only [starts, uses, List.filterMap_cons, List.filterMap_nil, List.mem_singleton,
      Prod.mk.injEq, Assoc.get?, beq_iff_eq]
    by_cases hq : q = p
    · subst hq
      simp [h, eq_comm]
    · simp [hq, Ne.symm hq]

/-- What was asked for is listed. -/
theorem mem_of_get? (h : Tracked before events after) {e : EntryPoint}
    (hq : Assoc.get? (uses events) q = some e) : q ∈ after := by
  rw [h.grows, List.mem_append]
  by_cases hb : q ∈ before
  · exact .inl hb
  · exact .inr (List.mem_map_of_mem (f := Prod.fst) ((h.first q e).2 ⟨hb, hq⟩))

theorem append (h : Tracked before events middle) (h' : Tracked middle more after) :
    Tracked before (events ++ more) after where
  grows := by rw [h'.grows, h.grows]; simp
  nodup hn := h'.nodup (h.nodup hn)
  first q e := by
    rw [starts_append, uses_append, List.mem_append, h.first, h'.first, Assoc.get?_append,
      Option.or_eq_some_iff]
    have hmiddle : q ∉ middle ↔ q ∉ before ∧ Assoc.get? (uses events) q = none := by
      constructor
      · intro hq
        refine ⟨fun hb => hq (h.grows ▸ List.mem_append_left _ hb), ?_⟩
        exact Option.eq_none_iff_forall_ne_some.2 fun e he => hq (h.mem_of_get? he)
      · rintro ⟨hb, hnone⟩ hq
        rw [h.grows, List.mem_append] at hq
        rcases hq with hq | hq
        · exact hb hq
        · obtain ⟨⟨_, e⟩, he, rfl⟩ := List.mem_map.1 hq
          simp [((h.first _ e).1 he).2] at hnone
    rw [hmiddle]
    tauto

end Tracked

/-- Setups keep a registry's list. -/
theorem Sets.tracked {steps : List (SetupStep η)} {events : List PluginEvent}
    {o : Except Fault Unit} (h : Sets family e steps w events o w')
    (hr : e.plugins < w.plugins.size) :
    w'.plugins.size = w.plugins.size ∧
      Tracked (listed w e.plugins) events (listed w' e.plugins) := by
  induction h with
  | done => exact ⟨rfl, .nil _⟩
  | install h hrest ih =>
    have hplugins := plugins_of_install h
    obtain ⟨hsize, ht⟩ := ih (by rw [hplugins]; exact hr)
    exact ⟨hsize.trans (congrArg _ hplugins), listed_of_plugins hplugins ▸ ht⟩
  | refused h =>
    have hplugins := plugins_of_install h
    exact ⟨congrArg _ hplugins, listed_of_plugins hplugins ▸ .nil _⟩
  | note hrest ih => exact ih hr
  | fail => exact ⟨rfl, .nil _⟩
  | known h hrest ih =>
    obtain ⟨hsize, ht⟩ := ih (size_entered.symm ▸ hr)
    rw [listed_of_plugins (plugins_entered_known h)] at ht
    exact ⟨hsize.trans size_entered, (Tracked.known h e).append ht⟩
  | new h hsetup hrest ih ih' =>
    obtain ⟨hsize, ht⟩ := ih (size_entered.symm ▸ hr)
    obtain ⟨hsize', ht'⟩ := ih' (by rw [hsize, size_entered]; exact hr)
    rw [listed_entered_new family hr h] at ht
    exact ⟨hsize'.trans (hsize.trans size_entered), (Tracked.new h e).append (ht.append ht')⟩
  | raise h hsetup ih =>
    obtain ⟨hsize, ht⟩ := ih (size_entered.symm ▸ hr)
    rw [listed_entered_new family hr h] at ht
    exact ⟨hsize.trans size_entered, (Tracked.new h e).append (ht.append (.raised _ _ _))⟩

/-- A fault that a setup raises is how everything ends that waits for it, and the plugin was
started. -/
theorem Sets.raised {steps : List (SetupStep η)} {events : List PluginEvent}
    {o : Except Fault Unit} (h : Sets family e steps w events o w') {f : Fault}
    (hf : raised q f ∈ events) : o = .error f ∧ started q e ∈ events := by
  induction h with
  | done => simp at hf
  | install h hrest ih => exact ih hf
  | refused h => simp at hf
  | note hrest ih => exact ih hf
  | fail => simp at hf
  | known h hrest ih =>
    simp only [List.mem_cons, reduceCtorEq, false_or] at hf
    exact ⟨(ih hf).1, List.mem_cons_of_mem _ (ih hf).2⟩
  | new h hsetup hrest ih ih' =>
    simp only [List.mem_cons, reduceCtorEq, false_or, List.mem_append] at hf
    rcases hf with hf | hf
    · exact absurd (ih hf).1 (by simp)
    · exact ⟨(ih' hf).1, by simp [(ih' hf).2]⟩
  | raise h hsetup ih =>
    simp only [List.mem_cons, reduceCtorEq, false_or, List.mem_append, raised.injEq,
      List.not_mem_nil, or_false] at hf
    rcases hf with hf | ⟨rfl, rfl⟩
    · exact ⟨(ih hf).1, by simp [(ih hf).2]⟩
    · simp

/-- A use that fails was the setup of its own plugin, and that setup raised the fault. -/
theorem Sets.raised_of_error {p : PluginId} {events : List PluginEvent} {f : Fault}
    (h : Sets family e [.use p] w events (.error f) w') : .raised p f ∈ events := by
  cases h with
  | known h hrest => cases hrest
  | new h hsetup hrest => cases hrest
  | raise h hsetup => simp

/-! ## Uses one after another -/

/-- A use of an entry point: what happened to plugins, and how it ended. -/
structure Use where
  entry : EntryPoint
  plugin : PluginId
  events : List PluginEvent
  outcome : Except Fault Unit

/-- The entry point and the plugin of a use. -/
def Use.call (use : Use) : EntryPoint × PluginId :=
  (use.entry, use.plugin)

/-- All that happened to plugins. -/
def Use.allEvents (uses : List Use) : List PluginEvent :=
  uses.flatMap Use.events

/-- What uses one after another leave. -/
def afterUses (family : Array (Plugin η)) (w : Workspace η) (calls : List (EntryPoint × PluginId)) :
    Workspace η :=
  calls.foldl (fun w call => (perform (call.1.use family call.2) w).2) w

/-- Uses one after another, each done as its nested setups are. -/
inductive Uses (family : Array (Plugin η)) : Workspace η → List Use → Prop
  | nil {w : Workspace η} : Uses family w []
  | cons {w w₁ : Workspace η} {use : Use} {rest : List Use}
      (hsets : Sets family use.entry [.use use.plugin] w use.events use.outcome w₁)
      (hwork : perform (use.entry.use family use.plugin) w = (use.outcome, w₁))
      (hrest : Uses family w₁ rest) : Uses family w (use :: rest)

/-- Whatever plugins ask for, every use comes to an end. -/
theorem exists_uses (family : Array (Plugin η)) : ∀ (calls : List (EntryPoint × PluginId))
    {w : Workspace η}, (∀ call ∈ calls, call.1.plugins < w.plugins.size) →
    ∃ uses, Uses family w uses ∧ uses.map Use.call = calls
  | [], _, _ => ⟨[], .nil, rfl⟩
  | (e, p) :: calls, w, h => by
    obtain ⟨events, o, w₁, hs, hsize, hwork⟩ := use_sets family p (h _ List.mem_cons_self)
    obtain ⟨uses, hrest, hcalls⟩ := exists_uses family calls (w := w₁) fun call hm => by
      rw [hsize]
      exact h call (List.mem_cons_of_mem _ hm)
    refine ⟨⟨e, p, events, o⟩ :: uses, .cons hs hwork hrest, ?_⟩
    simp [Use.call, hcalls]

theorem Uses.tracked {uses : List Use} (h : Uses family w uses) (hr : r < w.plugins.size)
    (hshare : ∀ call ∈ uses.map Use.call, call.1.plugins = r) :
    Tracked (listed w r) (Use.allEvents uses)
      (listed (afterUses family w (uses.map Use.call)) r) := by
  induction h with
  | nil => exact .nil _
  | cons hsets hwork hrest ih =>
    rw [List.map_cons, List.forall_mem_cons] at hshare
    obtain ⟨rfl, hshare⟩ := hshare
    obtain ⟨hsize, ht⟩ := hsets.tracked hr
    have hafter := ih (by rw [hsize]; exact hr) hshare
    rw [List.map_cons, afterUses, List.foldl_cons, Use.call, hwork]
    exact ht.append hafter

theorem Uses.sets {uses : List Use} (h : Uses family w uses) {use : Use} (hu : use ∈ uses) :
    ∃ w₁ w₂, Sets family use.entry [.use use.plugin] w₁ use.events use.outcome w₂ := by
  induction h with
  | nil => cases hu
  | cons hsets hwork hrest ih =>
    rcases List.mem_cons.1 hu with rfl | hu
    · exact ⟨_, _, hsets⟩
    · exact ih hu

/-- However plugins ask for each other and fail, every use of entry points that share a registry
comes to an end. Each plugin starts at most once, with the entry point of the first use that reaches
it; the registry lists the plugins in the order in which they started; and a fault that a setup
raises is how the use ends, while the plugin stays listed. -/
theorem plugins_start_once (family : Array (Plugin η)) (w : Workspace η) (r : PluginsId)
    (hw : w.plugins[r]? = some []) (calls : List (EntryPoint × PluginId))
    (hshare : ∀ call ∈ calls, call.1.plugins = r) :
    (∃ uses, Uses family w uses ∧ uses.map Use.call = calls) ∧
    ∀ uses, Uses family w uses → uses.map Use.call = calls →
      ((starts (Use.allEvents uses)).map Prod.fst).Nodup ∧
      listed (afterUses family w calls) r = (starts (Use.allEvents uses)).map Prod.fst ∧
      (∀ q e, (q, e) ∈ starts (Use.allEvents uses) ↔
        Assoc.get? (PluginEvent.uses (Use.allEvents uses)) q = some e) ∧
      (∀ q f, raised q f ∈ Use.allEvents uses → q ∈ listed (afterUses family w calls) r) ∧
      ∀ use ∈ uses, ∀ f, use.outcome = .error f ↔ ∃ q, raised q f ∈ use.events := by
  have hr : r < w.plugins.size := (Array.getElem?_eq_some_iff.1 hw).1
  refine ⟨exists_uses family calls fun call hm => (hshare call hm).symm ▸ hr, ?_⟩
  rintro uses huses rfl
  have hempty : listed w r = [] := by
    unfold listed
    rw [Array.getD_eq_getD_getElem?, hw]
    rfl
  have ht := huses.tracked hr hshare
  rw [hempty] at ht
  have hlist := ht.grows
  rw [List.nil_append] at hlist
  refine ⟨hlist ▸ ht.nodup List.nodup_nil, hlist, fun q e => ?_, fun q f hf => ?_,
    fun use hu f => ?_⟩
  · simpa using ht.first q e
  · obtain ⟨use, hu, hf⟩ := List.mem_flatMap.1 hf
    obtain ⟨w₁, w₂, hsets⟩ := huses.sets hu
    have hstart := List.mem_flatMap.2 ⟨use, hu, (hsets.raised hf).2⟩
    rw [hlist]
    exact List.mem_map.2 ⟨_, mem_starts.2 hstart, rfl⟩
  · obtain ⟨w₁, w₂, hsets⟩ := huses.sets hu
    constructor
    · intro ho
      rw [ho] at hsets
      exact ⟨_, hsets.raised_of_error⟩
    · rintro ⟨q, hq⟩
      exact (hsets.raised hq).1

/-- A workspace with one registry of plugins and one of methods, both empty. -/
def bare : Workspace Nat :=
  ⟨.empty, .start "" default, ⟨[], fun _ _ => none⟩, #[], #[.empty], #[[]], 0, #[]⟩

/-- Two plugins that ask for each other, the second of which fails when it is set up. -/
def rivals : Array (Plugin Nat) :=
  #[⟨"first", [.use 0, .use 1, .use 2]⟩,
    ⟨"second", [.install [("wrap", 1)] none, .use 0, .fail (.tool .emptyCollection)]⟩,
    ⟨"third", []⟩]

/-- An entry point for the two registries. -/
def door : EntryPoint :=
  ⟨0, ⟨" "⟩, 0, 0⟩

theorem plugins_start_once_rivals :
    ∃ uses, Uses rivals bare uses ∧
      uses.map Use.call = [(door, 0), (door.withParser 1, 1), (door.withParser 1, 2)] ∧
      (starts (Use.allEvents uses)).map Prod.fst = [0, 1, 2] := by
  have h := plugins_start_once rivals bare 0 rfl
    [(door, 0), (door.withParser 1, 1), (door.withParser 1, 2)]
    (by simp [door, EntryPoint.withParser])
  obtain ⟨uses, huses, hcalls⟩ := h.1
  refine ⟨uses, huses, hcalls, ?_⟩
  rw [← (h.2 uses huses hcalls).2.1]
  decide +kernel

end Plugin

end Retouch
