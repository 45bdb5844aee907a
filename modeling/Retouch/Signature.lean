import Retouch.Assoc
import Retouch.Datum

/-!
# Calls with arguments

A signature lists the parameters of something that can be called. A call gives arguments by position
and by name; `bind` hands every parameter its argument, or says what is wrong with the call. What is
wrong with the names is found before a surplus of arguments, and that before missing ones.
-/

namespace Retouch

/-- What is wrong with a call. -/
inductive Misuse where
  | unknownName (callee name : String)
  /-- A parameter was given by position and by name. -/
  | givenTwice (callee name : String)
  /-- More arguments than parameters; some more may have been given by name. -/
  | surplus (callee : String) (least most given byName : Nat)
  | missing (callee : String) (names : List String)
  | missingNamed (callee : String) (names : List String)
  | count (expected given : Nat)
  /-- A name and a value were asked for. -/
  | pairCount (given : Nat)
  | noArguments (callee : String) (given : Nat)
  | exactlyOne (callee : String) (given : Nat)
  | noNames (callee : String)
  /-- The name of an attribute is no text. -/
  | nameNotText (typeName : String)
  | formatNotText (typeName : String)
  | unknownFormat (typeName : String)
  | notWhole (typeName : String)
  /-- The attribute that tells a value's class was to be taken away. -/
  | classErased
  | nothingToMake
  /-- Something is to be made, and what is given to say what is no type. -/
  | notType (typeName : String)
  | notOrdered (typeName other : String)
  | notCallable (typeName : String)
  /-- What was to be applied to a first argument cannot be called. -/
  | notApplicable
  | notIterable (typeName : String)
  | notPosition (typeName : String)
  | notOffset
  | noLength (typeName : String)
  | notSubscriptable (typeName : String)
  /-- What cannot be put at the end of a text. -/
  | notJoinable (typeName : String)
  /-- What cannot be a key or a member of a set. -/
  | unhashable (typeName : String)
  /-- What no number can be taken from. -/
  | notSubtractable (typeName : String)
  /-- What a text cannot be divided by. -/
  | dividerNotText (typeName : String)
  /-- What cannot be the path of a file. -/
  | notPath (typeName : String)
  /-- What cannot be a key where keys are written as texts. -/
  | notTextKey (typeName : String)
deriving DecidableEq, Repr, Inhabited

namespace Misuse

/-- The ending of a noun that is counted. -/
def plural (n : Nat) : String := if n = 1 then "" else "s"

/-- Names in quotes, the last one after "and". -/
def enumerate : List String → String
  | [] => ""
  | [a] => "'" ++ a ++ "'"
  | [a, b] => "'" ++ a ++ "' and '" ++ b ++ "'"
  | [a, b, c] => "'" ++ a ++ "', '" ++ b ++ "', and '" ++ c ++ "'"
  | a :: rest => "'" ++ a ++ "', " ++ enumerate rest

/-- The wording. -/
def message : Misuse → String
  | .unknownName callee name =>
    callee ++ "() got an unexpected keyword argument '" ++ name ++ "'"
  | .givenTwice callee name => callee ++ "() got multiple values for argument '" ++ name ++ "'"
  | .surplus callee least most given byName =>
    let range := if least = most then toString most
      else "from " ++ toString least ++ " to " ++ toString most
    let noun := " positional argument" ++ (if least = most then plural most else "s")
    let others := if byName = 0 then ""
      else " positional argument" ++ plural given ++ " (and " ++ toString byName ++
        " keyword-only argument" ++ plural byName ++ ")"
    callee ++ "() takes " ++ range ++ noun ++ " but " ++ toString given ++ others ++
      (if given = 1 && byName = 0 then " was given" else " were given")
  | .missing callee names =>
    callee ++ "() missing " ++ toString names.length ++ " required positional argument" ++
      plural names.length ++ ": " ++ enumerate names
  | .missingNamed callee names =>
    callee ++ "() missing " ++ toString names.length ++ " required keyword-only argument" ++
      plural names.length ++ ": " ++ enumerate names
  | .count expected given =>
    "expected " ++ toString expected ++ " argument" ++ plural expected ++ ", got " ++ toString given
  | .pairCount given => " expected 2 arguments, got " ++ toString given
  | .noArguments callee given =>
    callee ++ "() takes no arguments (" ++ toString given ++ " given)"
  | .exactlyOne callee given =>
    callee ++ "() takes exactly one argument (" ++ toString given ++ " given)"
  | .noNames callee => callee ++ "() takes no keyword arguments"
  | .nameNotText typeName => "attribute name must be string, not '" ++ typeName ++ "'"
  | .formatNotText typeName => "__format__() argument must be str, not " ++ typeName
  | .unknownFormat typeName => "unsupported format string passed to " ++ typeName ++ ".__format__"
  | .notWhole typeName => "'" ++ typeName ++ "' object cannot be interpreted as an integer"
  | .classErased => "can't delete __class__ attribute"
  | .nothingToMake => "object.__new__(): not enough arguments"
  | .notType typeName => "object.__new__(X): X is not a type object (" ++ typeName ++ ")"
  | .notOrdered typeName other =>
    "'<' not supported between instances of '" ++ typeName ++ "' and '" ++ other ++ "'"
  | .notCallable typeName => "'" ++ typeName ++ "' object is not callable"
  | .notApplicable => "the first argument must be callable"
  | .notIterable typeName => "'" ++ typeName ++ "' object is not iterable"
  | .notPosition typeName => "tuple indices must be integers or slices, not " ++ typeName
  | .notOffset => "slice indices must be integers or None or have an __index__ method"
  | .noLength typeName => "object of type '" ++ typeName ++ "' has no len()"
  | .notSubscriptable typeName => "'" ++ typeName ++ "' object is not subscriptable"
  | .notJoinable typeName => "can only concatenate str (not \"" ++ typeName ++ "\") to str"
  | .notSubtractable typeName => "unsupported operand type(s) for -: '" ++ typeName ++ "' and 'int'"
  | .dividerNotText typeName => "must be str or None, not " ++ typeName
  | .notPath typeName => "expected str, bytes or os.PathLike object, not " ++ typeName
  | .notTextKey typeName => "keys must be str, int, float, bool or None, not " ++ typeName
  | .unhashable typeName => "unhashable type: '" ++ typeName ++ "'"

end Misuse

/-- The parameters of something that can be called: those that have to be given, those that have a
value when they are not, and those that are only given by name. Where there is a rest, surplus
arguments are kept. -/
structure Signature (α : Type) where
  callee : String
  required : List String
  optional : List (String × α) := []
  named : List (String × Option α) := []
  rest : Bool := false

namespace Signature

variable {α : Type}

/-- The parameters that may be given by position, in order. -/
def positional (s : Signature α) : List String :=
  s.required ++ Assoc.keys s.optional

/-- All parameters in order. -/
def parameters (s : Signature α) : List String :=
  s.positional ++ Assoc.keys s.named

/-- What a parameter is when it is not given. -/
def default? (s : Signature α) (name : String) : Option α :=
  (Assoc.get? s.optional name).or (Assoc.get? s.named name).join

/-- Adds the arguments given by name to those given by position. -/
def bindNamed (s : Signature α) : List (String × α) → List (String × α) →
    Except Misuse (List (String × α))
  | bound, [] => .ok bound
  | bound, (name, a) :: rest =>
    if !s.parameters.contains name then .error (.unknownName s.callee name)
    else if Assoc.contains bound name then .error (.givenTwice s.callee name)
    else bindNamed s (bound ++ [(name, a)]) rest

/-- The argument of every parameter, in the order of the parameters, and then the rest. -/
def bind (s : Signature α) (args : List α) (named : List (String × α)) :
    Except Misuse (List α) := do
  let bound ← s.bindNamed (s.positional.zip args) named
  let absent (names : List String) : List String :=
    names.filter fun name => !Assoc.contains bound name
  if s.positional.length < args.length && !s.rest then
    let byName := (Assoc.keys s.named).filter fun name => Assoc.contains bound name
    throw (.surplus s.callee s.required.length s.positional.length args.length byName.length)
  if !(absent s.required).isEmpty then throw (.missing s.callee (absent s.required))
  let needed := absent ((s.named.filter fun entry => entry.2.isNone).map Prod.fst)
  if !needed.isEmpty then throw (.missingNamed s.callee needed)
  return (s.parameters.filterMap fun name => (Assoc.get? bound name).or (s.default? name)) ++
    args.drop s.positional.length

end Signature

end Retouch
