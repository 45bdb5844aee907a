import Retouch.Assoc
import Retouch.Fault
import Retouch.Names

/-!
# Methods installed on collections

A registry holds methods for all collections and methods for the collections of one kind. A name is
never both: a method for all shares its name with no other, and a method for a kind shares it with
none for all and none of the same kind. Installing a mapping of methods either installs all of them
or, if any name is taken, none.
-/

namespace Retouch

/-- An installed method; without a kind it belongs to all collections. -/
structure Method (η : Type) where
  name : String
  handler : η
  kind : Option String
deriving DecidableEq

/-- The methods for all collections, and those for each kind. -/
structure MethodRegistry (η : Type) where
  general : List (String × Method η)
  typed : List (String × List (String × Method η))

namespace MethodRegistry

variable {η : Type}

instance : Inhabited (MethodRegistry η) := ⟨⟨[], []⟩⟩

/-- The registry without methods. -/
def empty : MethodRegistry η := ⟨[], []⟩

/-- Names that start with an underscore are never methods. -/
def isHidden (name : String) : Bool :=
  name.toList.head? == some '_'

/-- What every collection offers by itself, as far as its name is not hidden. -/
def reserved : List String :=
  (Names.common ++ Names.own "Collection").filter fun name => !isHidden name

/-- The methods of one kind. -/
def table (r : MethodRegistry η) (kind : String) : List (String × Method η) :=
  (Assoc.get? r.typed kind).getD []

/-- Whether another method stands in the way of a name. -/
def conflicts (r : MethodRegistry η) (name : String) (kind : Option String) : Bool :=
  Assoc.contains r.general name ||
    match kind with
    | none => r.typed.any fun entry => Assoc.contains entry.2 name
    | some k => Assoc.contains (r.table k) name

/-- Whether a name cannot be installed. -/
def isTaken (r : MethodRegistry η) (kind : Option String) (name : String) : Bool :=
  isHidden name || reserved.contains name || r.conflicts name kind

/-- Puts a method in its table, whatever stands there. -/
def put (r : MethodRegistry η) (kind : Option String) (name : String) (handler : η) :
    MethodRegistry η :=
  match kind with
  | none => { r with general := Assoc.insert r.general name ⟨name, handler, none⟩ }
  | some k =>
    { r with typed := Assoc.insert r.typed k (Assoc.insert (r.table k) name ⟨name, handler, kind⟩) }

/-- Installs methods, or names the first that cannot be installed. -/
def install (r : MethodRegistry η) (methods : List (String × η)) (kind : Option String) :
    Except ToolError (MethodRegistry η) :=
  match (methods.map Prod.fst).find? (r.isTaken kind) with
  | some name => .error (.duplicateMethod name kind)
  | none => .ok (methods.foldl (fun r m => r.put kind m.1 m.2) r)

/-- The method that a collection of a kind sees under a name. -/
def lookup (r : MethodRegistry η) (name kind : String) : Option (Method η) :=
  match Assoc.get? (r.table kind) name with
  | some m => some m
  | none => Assoc.get? r.general name

/-- The method that a collection sees under a name, whatever its kind. -/
def visible (r : MethodRegistry η) (name : String) : Datum → Option (Method η)
  | .scalar (.text kind) => r.lookup name kind
  | _ => Assoc.get? r.general name

/-- Names in order, each once. -/
def sorted (names : List String) : List String :=
  names.eraseDups.mergeSort fun a b => !decide (b < a)

/-- The names that a collection of a kind sees. -/
def names (r : MethodRegistry η) (kind : String) : List String :=
  sorted (Assoc.keys r.general ++ Assoc.keys (r.table kind))

/-- The names that a collection sees, whatever its kind. -/
def visibleNames (r : MethodRegistry η) : Datum → List String
  | .scalar (.text kind) => r.names kind
  | _ => sorted (Assoc.keys r.general)

end MethodRegistry

end Retouch
