import Retouch.Script.Member
import Retouch.Script.Universal

/-!
# Calls

Calling a value with arguments by position and by name. What is installed on a collection is a
handler that the library knows nothing about; whoever makes the call runs it.
-/

namespace Retouch

/-- What a call comes to: a value, or a handler to be run with the collection and the arguments. -/
inductive Reply (η : Type) where
  | value (v : Value)
  | handler (h : η) (c : CollectionId) (args : List Value) (named : List (String × Value))

namespace Script

variable {η : Type}

/-- What a value offers under a name, called. -/
def callMember (v : Value) (name : String) (args : List Value) (named : List (String × Value)) :
    Script η Value := do
  match Names.signature? v.typeName name with
  | some signature =>
    match signature.bind (v :: args) named with
    | .ok bound => runMember v name bound.tail
    | .error problem => misuse problem
  | none => runUniversal v name args named

/-- Calls a value. -/
def call (f : Value) (args : List Value) (named : List (String × Value)) :
    Script η (Reply η) := do
  match f with
  | .bound v name => return .value (← callMember v name args named)
  | .applied c name => return .handler (← installed c name).handler c args named
  | .entry e => return .value (← callMember (.entry e) "__call__" args named)
  | .plugin p =>
    runPlugin p (args.headD .null)
    return .value .null
  | v => misuse (.notCallable v.typeName)

end Script

end Retouch
