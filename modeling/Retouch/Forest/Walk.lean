import Retouch.Forest

/-!
# Walks

The nodes below a node in pre-order, a shared node once for each slot it stands in, taken off an
explicit stack. A forest without cycles is walked to the end within its budget. `isPristine` stops
at the first node that was modified.
-/

namespace Retouch.Forest

/-- The largest number of children that a node has. -/
def width (f : Forest) : Nat :=
  f.nodes.foldl (fun w n => max w n.children.length) 0

/-- More steps than any walk of a forest without cycles takes. -/
def budget (f : Forest) : Nat :=
  Nat.pow (f.width + 3) (f.size + 2)

/-- Takes nodes off the stack and puts their children on it. -/
def walkFrom (f : Forest) : Nat → List NodeId → List NodeId
  | _, [] => []
  | 0, _ :: _ => []
  | fuel + 1, n :: rest => n :: walkFrom f fuel ((f.node n).children ++ rest)

/-- The node and all below it, in pre-order. -/
def walk (f : Forest) (n : NodeId) : List NodeId :=
  f.walkFrom f.budget [n]

/-- Looks for a modified node on the stack and below. -/
def pristineFrom (f : Forest) : Nat → List NodeId → Bool
  | _, [] => true
  | 0, _ :: _ => true
  | fuel + 1, n :: rest =>
    if (f.node n).isModified then false
    else pristineFrom f fuel ((f.node n).children ++ rest)

/-- Whether neither the node nor any node below it was modified. -/
def isPristine (f : Forest) (n : NodeId) : Bool :=
  f.pristineFrom f.budget [n]

theorem pristineFrom_eq_all (f : Forest) : ∀ (fuel : Nat) (stack : List NodeId),
    f.pristineFrom fuel stack = (f.walkFrom fuel stack).all fun n => !(f.node n).isModified
  | 0, [] => rfl
  | _ + 1, [] => rfl
  | 0, _ :: _ => rfl
  | fuel + 1, n :: rest => by
    have ih := pristineFrom_eq_all f fuel ((f.node n).children ++ rest)
    by_cases h : (f.node n).isModified <;> simp [pristineFrom, walkFrom, h, ih]

/-- A node is pristine when its walk meets no modified node. -/
theorem isPristine_eq_all (f : Forest) (n : NodeId) :
    f.isPristine n = (f.walk n).all fun m => !(f.node m).isModified :=
  pristineFrom_eq_all f f.budget [n]

end Retouch.Forest
