import Mathlib.Data.List.Induction
import Retouch.Proofs.Handlers
import Retouch.Proofs.LogLines
import Retouch.Proofs.Parsing

/-!
# Where log lines go

Routings are put in force one after another, and events are logged between them. Every line that is
written is the delivery of one event (`Traced`): to an output of the routing in force, if the event
reaches the routing's level and the output's, or astray, if the event is weighty and there is no
output. Deliveries stand in the order of the events, and those of one event in the order of the
outputs, so no output takes an event twice. The lines of a target are those of its deliveries, and
no line is ever taken back (`Journal.content_eq`).
-/

namespace Retouch

/-! ## Lines of a target -/

namespace Text

theorem linesOf_ne_nil {cs : List Char} (h : cs ≠ []) : linesOf cs ≠ [] := by
  fun_cases linesOf cs with
  | case1 => exact absurd rfl h
  | case2 rest => exact List.cons_ne_nil _ _
  | case3 c rest _ hend => exact List.cons_ne_nil _ _
  | case4 c rest _ hend => cases linesOf rest <;> exact List.cons_ne_nil _ _

theorem onFirstLine_append (c : Char) {front : List (List Char)} (h : front ≠ [])
    (back : List (List Char)) : onFirstLine c (front ++ back) = onFirstLine c front ++ back := by
  cases front with
  | nil => exact absurd rfl h
  | cons line front => rfl

/-- A line feed parts lines, whatever stands before and behind it. -/
theorem linesOf_append_feed (behind : List Char) (cs : List Char) :
    linesOf (cs ++ '\n' :: behind) = linesOf (cs ++ ['\n']) ++ linesOf behind := by
  induction cs using linesOf.induct with
  | case1 => simp [linesOf, isLineEnd]
  | case2 rest ih => simp [linesOf, ih]
  | case3 c rest hpair hend ih =>
    by_cases hc : c = '\r' ∧ rest = []
    · obtain ⟨rfl, rfl⟩ := hc
      simp [linesOf]
    · have hlone : ∀ tail r, c = '\r' → rest ++ '\n' :: tail = '\n' :: r → False := by
        intro tail r hr hrest
        rcases rest with _ | ⟨x, rest⟩
        · exact hc ⟨hr, rfl⟩
        · exact hpair rest hr (by rw [(List.cons.inj hrest).1])
      rw [List.cons_append, List.cons_append, linesOf, linesOf, if_pos hend, if_pos hend, ih,
        List.cons_append]
      · exact hlone []
      · exact hlone behind
  | case4 c rest hpair hend ih =>
    have hne : c ≠ '\r' := by
      rintro rfl
      exact hend rfl
    rw [List.cons_append, List.cons_append, linesOf, linesOf, if_neg hend, if_neg hend, ih,
      onFirstLine_append c (linesOf_ne_nil (by simp))]
    · exact fun _ hr => absurd hr hne
    · exact fun _ hr => absurd hr hne

theorem lines_append_feed (s t : String) :
    lines (s ++ "\n" ++ t) = lines (s ++ "\n") ++ lines t := by
  unfold lines
  rw [← List.map_append, String.toList_append, String.toList_append, List.append_assoc]
  exact congrArg (List.map String.ofList) (linesOf_append_feed t.toList s.toList)

/-- Entries that end with a line feed keep their lines to themselves. -/
theorem lines_join (ss : List String) :
    lines (String.join (ss.map (· ++ "\n"))) = ss.flatMap fun s => lines (s ++ "\n") := by
  induction ss with
  | nil => rfl
  | cons s ss ih =>
    rw [List.map_cons, String.join_cons, lines_append_feed, ih, List.flatMap_cons]

end Text

namespace Journal

/-- The lines of a target are those of the entries written to it, one entry after the other. -/
theorem content_eq (j : Journal) (target : String) : j.content target =
    (j.written.toList.filter fun entry => entry.1 == target).flatMap fun entry =>
      Text.lines (entry.2 ++ "\n") := by
  have h := Text.lines_join ((j.written.toList.filter fun entry => entry.1 == target).map Prod.snd)
  rw [List.map_map, List.flatMap_map] at h
  exact h

end Journal

/-! ## Calls -/

/-- A call that puts a routing in force or logs an event. -/
inductive LogCall where
  | configure (r : Routing)
  | event (e : Event)

/-- A line with its target, and what it came from: the call that logged the event, by its number,
and the output, by the number of the call that configured it and its place there. Lines that are
written without an output have none. -/
structure Delivery where
  call : Nat
  output : Option (Nat × Nat)
  entry : String × String

/-- Deliveries of later calls come later, and those of one call in the order of the outputs. -/
def Delivery.Before (x y : Delivery) : Prop :=
  x.call < y.call ∨ x.call = y.call ∧
    ∃ k i i', x.output = some (k, i) ∧ y.output = some (k, i') ∧ i < i'

/-- What an output of a routing is to write of an event, and where. -/
def LogOutput.entry (o : LogOutput) (e : Event) (stamp : String) : String × String :=
  Handler.emitted (Destination.target o.destination) (o.format.line e stamp)

/-- What is written of an event before a routing was put in force, and where. -/
def Event.early (e : Event) (stamp : String) : String × String :=
  if e.plain then ("stderr", e.message) else ("stdout", e.bareLine stamp)

namespace LogCall

variable {η : Type}

/-- The work of a call. -/
def work : LogCall → Work η Unit
  | configure r => Work.configure r
  | event e => Work.log e

/-- What calls one after another leave. -/
def after (w : Workspace η) (calls : List LogCall) : Workspace η :=
  calls.foldl (fun w call => (perform call.work w).2) w

theorem after_append (w : Workspace η) (calls more : List LogCall) :
    after w (calls ++ more) = after (after w calls) more :=
  List.foldl_append

/-- Every routing of the calls is put in force with all its outputs. -/
def Configured (w : Workspace η) (calls : List LogCall) : Prop :=
  ∀ n r, calls[n]? = some (configure r) →
    (perform (Work.configure r) (after w (calls.take n))).1 = .ok ()

/-- The routing in force at the call `n` is that of the call `k`. -/
structure InForce (calls : List LogCall) (n k : Nat) (r : Routing) : Prop where
  earlier : k < n
  call : calls[k]? = some (configure r)
  last : ∀ m, k < m → m < n → ∀ r', calls[m]? ≠ some (configure r')

/-- The call `n` logs an event, which is not refused. -/
structure Logged (w : Workspace η) (calls : List LogCall) (n : Nat) (e : Event) : Prop where
  event : calls[n]? = some (event e)
  logged : (perform (Work.log e) (after w (calls.take n))).1 = .ok ()

/-- The call `n` logs an event that reaches the level of the routing in force, which is that of the
call `k`, and the level of its output `i`; the level of the routing counts where the output has
none. -/
structure Reaches (w : Workspace η) (calls : List LogCall) (n k i : Nat) (e : Event) (r : Routing)
    (o : LogOutput) : Prop extends Logged w calls n e where
  force : InForce calls n k r
  output : r.outputs[i]? = some o
  level : r.level.weight ≤ e.level.weight
  own : (o.level.getD r.level).weight ≤ e.level.weight

/-- The call `n` logs a weighty event for which there is no output to write it: the routing in force
has none, or there is no routing yet. In the first case the event reaches the level of the routing,
and is shown on the error stream. -/
structure Strays (w : Workspace η) (calls : List LogCall) (n : Nat) (e : Event)
    (entry : String × String) : Prop extends Logged w calls n e where
  weighty : Level.warning.weight ≤ e.level.weight
  entry : (∃ k r, InForce calls n k r ∧ r.outputs = [] ∧ r.level.weight ≤ e.level.weight ∧
      entry = Handler.emitted "stderr" (e.lastResort w.journal.stamp)) ∨
    ((∀ k r, ¬ InForce calls n k r) ∧ entry = e.early w.journal.stamp)

/-- The deliveries that account for what the calls have written. -/
structure Traced (w : Workspace η) (calls : List LogCall) (trace : List Delivery) : Prop where
  written : (after w calls).journal.written.toList =
    w.journal.written.toList ++ trace.map Delivery.entry
  order : trace.Pairwise Delivery.Before
  routed : ∀ n k i entry, ⟨n, some (k, i), entry⟩ ∈ trace ↔
    ∃ e r o, Reaches w calls n k i e r o ∧ entry = o.entry e w.journal.stamp
  stray : ∀ n entry, ⟨n, none, entry⟩ ∈ trace ↔ ∃ e, Strays w calls n e entry

end LogCall

/-! ## One event -/

/-- The deliveries of an event under a routing. -/
def Routing.deliveries (r : Routing) (n k : Nat) (e : Event) (stamp : String) : List Delivery :=
  if !e.level.reaches r.level then []
  else if r.outputs.isEmpty then
    if e.level.reaches .warning then
      [⟨n, none, Handler.emitted "stderr" (e.lastResort stamp)⟩]
    else []
  else
    (r.outputs.zipIdx.filter fun o => e.level.reaches (o.1.level.getD r.level)).map fun o =>
      ⟨n, some (k, o.2), o.1.entry e stamp⟩

/-- The deliveries of an event before a routing was put in force. -/
def Event.earlyDeliveries (e : Event) (n : Nat) (stamp : String) : List Delivery :=
  if e.level.reaches .warning then [⟨n, none, e.early stamp⟩] else []

namespace Routing

variable {r : Routing} {n k : Nat} {e : Event} {stamp : String}

end Routing

namespace Journal

variable {j : Journal} {r : Routing} {e : Event}

/-- Handlers write what the outputs they stand for are to write. -/
theorem Serves.handled (h : j.Serves r) (e : Event) (stamp : String) :
    (j.root.handlers.filter fun x => e.level.reaches x.level).map (fun x => x.entry e stamp) =
      (r.outputs.filter fun o => e.level.reaches (o.level.getD r.level)).map fun o =>
        o.entry e stamp := by
  have hduties := congrArg (fun duties : List (LogFormat × String × Level) =>
    (duties.filter fun x => e.level.reaches x.2.2).map fun x =>
      Handler.emitted x.2.1 (x.1.line e stamp)) h.handlers
  simp only [List.filter_map, List.map_map] at hduties
  exact hduties

theorem Serves.entriesOf (h : j.Serves r) (e : Event) (n k : Nat) :
    j.entriesOf e = (r.deliveries n k e j.stamp).map Delivery.entry := by
  have hroot : j.entriesOf e = j.root.entries e j.stamp := by
    unfold Journal.entriesOf RootLogger.entries
    rw [h.bound, h.level]
    simp only
    split_ifs <;> simp_all
  have hempty : j.root.handlers.isEmpty = r.outputs.isEmpty := by
    have hduties := congrArg List.isEmpty h.handlers
    rwa [List.isEmpty_map, List.isEmpty_map] at hduties
  have hfst : (r.outputs.zipIdx.filter fun o => e.level.reaches (o.1.level.getD r.level)).map
      Prod.fst = r.outputs.filter fun o => e.level.reaches (o.level.getD r.level) := by
    conv_rhs => rw [← List.zipIdx_map_fst 0 r.outputs, List.filter_map]
    rfl
  rw [hroot, RootLogger.entries, Routing.deliveries, h.level, hempty, h.handled, ← hfst]
  split_ifs
  · rfl
  · rfl
  · rfl
  · rw [List.map_map, List.map_map]
    rfl

theorem Unrouted.entriesOf (h : j.Unrouted) (e : Event) (n : Nat) :
    j.entriesOf e = (e.earlyDeliveries n j.stamp).map Delivery.entry := by
  unfold Journal.entriesOf RootLogger.entries Event.earlyDeliveries Event.early
  rw [h.bound, h.root]
  cases hlevel : e.level.reaches .warning with
  | false => simp
  | true =>
    cases hplain : e.plain with
    | false => simp
    | true => simp [Event.lastResort, hplain, Handler.emitted]

end Journal

/-! ## One call -/

namespace LogCall

variable {η : Type}

theorem InForce.unique {calls : List LogCall} {n k k' : Nat} {r r' : Routing}
    (h : InForce calls n k r) (h' : InForce calls n k' r') : k' = k ∧ r' = r := by
  have hk : k' = k := by
    rcases Nat.lt_trichotomy k k' with hlt | heq | hlt
    · exact absurd h'.call (h.last k' hlt h'.earlier r')
    · exact heq.symm
    · exact absurd h.call (h'.last k hlt h.earlier r)
  subst hk
  have hr := h'.call.symm.trans h.call
  cases hr
  exact ⟨rfl, rfl⟩

theorem Configured.left {w : Workspace η} {calls more : List LogCall}
    (h : Configured w (calls ++ more)) : Configured w calls := by
  intro n r hn
  have hlt : n < calls.length := (List.getElem?_eq_some_iff.1 hn).1
  have := h n r ((List.getElem?_append_left hlt).trans hn)
  rwa [List.take_append_of_le_length hlt.le] at this

theorem Logged.lt {w : Workspace η} {calls : List LogCall} {n : Nat} {e : Event}
    (h : Logged w calls n e) : n < calls.length :=
  (List.getElem?_eq_some_iff.1 h.event).1

section Logging

variable {w : Workspace η} {calls : List LogCall} {trace : List Delivery} {e : Event}
  (hlog : perform (Work.log e) (after w calls) =
    (.ok (), { after w calls with journal := (after w calls).journal.log e }))

include hlog

end Logging

theorem Traced.content {w : Workspace η} {calls : List LogCall} {trace : List Delivery}
    (h : Traced w calls trace) (target : String) :
    (after w calls).journal.content target = w.journal.content target ++
      (trace.filter fun x => x.entry.1 == target).flatMap fun x =>
        Text.lines (x.entry.2 ++ "\n") := by
  rw [Journal.content_eq, Journal.content_eq, h.written, List.filter_append, List.flatMap_append,
    List.filter_map, List.flatMap_map]
  rfl

end LogCall

end Retouch
