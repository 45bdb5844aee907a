import Retouch.Fault

/-!
# Outcomes

Work ends well or with a fault, and may change a state on the way. `perform` does the work from a
given state; the laws say what becomes of work done in steps.
-/

namespace Retouch

variable {σ α β : Type}

/-! ## Outcomes -/

@[simp]
theorem ok_bind (a : α) (next : α → Except Fault β) : (Except.ok a >>= next) = next a := rfl

@[simp]
theorem error_bind (e : Fault) (next : α → Except Fault β) :
    (Except.error e >>= next) = .error e := rfl

@[simp]
theorem pure_eq_ok (a : α) : (pure a : Except Fault α) = .ok a := rfl

/-- Work in two steps succeeds if the first step does, and the second with what the first gave. -/
theorem bind_eq_ok {x : Except Fault α} {next : α → Except Fault β} {b : β} :
    x >>= next = .ok b ↔ ∃ a, x = .ok a ∧ next a = .ok b := by
  cases x with
  | error e => simp
  | ok a => simp

/-! ## Work on a state -/

/-- Does work on a state: how it ends, and the state it leaves. -/
def perform (x : ExceptT Fault (StateM σ) α) (s : σ) : Except Fault α × σ :=
  (x.run.run s).run

@[simp]
theorem perform_pure (a : α) (s : σ) :
    perform (pure a : ExceptT Fault (StateM σ) α) s = (.ok a, s) := rfl

@[simp]
theorem perform_throw (e : Fault) (s : σ) :
    perform (throw e : ExceptT Fault (StateM σ) α) s = (.error e, s) := rfl

@[simp]
theorem perform_get (s : σ) : perform (get : ExceptT Fault (StateM σ) σ) s = (.ok s, s) := rfl

@[simp]
theorem perform_set (s s' : σ) :
    perform (set s' : ExceptT Fault (StateM σ) PUnit) s = (.ok ⟨⟩, s') := rfl

@[simp]
theorem perform_modify (change : σ → σ) (s : σ) :
    perform (modify change : ExceptT Fault (StateM σ) PUnit) s = (.ok ⟨⟩, change s) := rfl

theorem perform_bind (x : ExceptT Fault (StateM σ) α) (next : α → ExceptT Fault (StateM σ) β)
    (s : σ) :
    perform (x >>= next) s = match perform x s with
      | (.ok a, s') => perform (next a) s'
      | (.error e, s') => (.error e, s') := by
  change (StateT.run (x.run >>= ExceptT.bindCont next) s).run = _
  rw [StateT.run_bind]
  change ((ExceptT.bindCont next (perform x s).1).run (perform x s).2).run = _
  rcases perform x s with ⟨e | a, s'⟩ <;> rfl

/-- Work goes on from where its first step succeeded. -/
theorem perform_bind_of_ok {x : ExceptT Fault (StateM σ) α} {s s' : σ} {a : α}
    (h : perform x s = (.ok a, s')) (next : α → ExceptT Fault (StateM σ) β) :
    perform (x >>= next) s = perform (next a) s' := by
  rw [perform_bind, h]

/-- Work in two steps succeeds if both do, the second from where the first left off. -/
theorem perform_bind_eq_ok {x : ExceptT Fault (StateM σ) α}
    {next : α → ExceptT Fault (StateM σ) β} {s t : σ} {b : β} :
    perform (x >>= next) s = (.ok b, t) ↔
      ∃ a s', perform x s = (.ok a, s') ∧ perform (next a) s' = (.ok b, t) := by
  rw [perform_bind]
  rcases perform x s with ⟨e | a, s'⟩
  · simp
  · simp only [Prod.mk.injEq, Except.ok.injEq]
    constructor
    · intro h
      exact ⟨a, s', ⟨rfl, rfl⟩, h⟩
    · rintro ⟨_, _, ⟨rfl, rfl⟩, h⟩
      exact h

theorem eq_ok_of_toOption {ε α : Type} {x : Except ε α} {a : α} (h : x.toOption = some a) :
    x = .ok a := by
  cases x with
  | ok b => exact congrArg _ (Option.some.inj h)
  | error e => cases h

theorem perform_eq_of_toOption {σ α : Type} {x : ExceptT Fault (StateM σ) α} {s : σ} {a : α}
    (h : (perform x s).1.toOption = some a) : perform x s = (.ok a, (perform x s).2) :=
  Prod.ext (eq_ok_of_toOption h) rfl

end Retouch
