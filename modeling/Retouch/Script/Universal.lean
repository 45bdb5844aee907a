import Retouch.Script.Attribute
import Retouch.Script.Describe

/-!
# What every value offers

Comparing, describing and taking apart values, and asking for and changing their attributes by name.
Arguments are counted and looked at in an order of their own: those given by name come first.
-/

namespace Retouch.Script

variable {η : Type}

/-- The text that names an attribute. -/
def attributeName (v : Value) : Script η String :=
  match v with
  | .scalar (.text s) _ => return s
  | v => misuse (.nameNotText v.typeName)

/-- What a value keeps as one value, or nothing if it keeps nothing. -/
def stateOf (v : Value) : Script η Value := do
  let entries := (← state v).map fun entry => entryOf entry.1 entry.2
  match v, entries with
  | _, [] => return .null
  | .path _, entries => return .tuple [.null, .mapping 0 entries]
  | _, entries => return .mapping 0 entries

/-- All names that a value answers to: those it keeps, those of its type and those of all types. -/
def namesOf (v : Value) : Script η (List String) := do
  let kept := (← state v).map Prod.fst
  return (kept ++ Names.listed v.typeName ++ Names.universal).eraseDups

/-- Something that takes so many arguments, none by name. -/
def expect (name : String) (count : Nat) (args : List Value) (named : List (String × Value)) :
    Script η Unit := do
  if !named.isEmpty then misuse (.noNames ("wrapper " ++ name))
  if args.length ≠ count then misuse (.count count args.length)

/-- Something of a type that takes at most one argument, not by name. -/
def expectFew (v : Value) (name : String) (count : Nat) (args : List Value)
    (named : List (String × Value)) : Script η Unit := do
  let callee := v.typeName ++ "." ++ name
  if !named.isEmpty then misuse (.noNames callee)
  if args.length ≠ count then
    misuse (if count = 0 then .noArguments callee args.length else .exactlyOne callee args.length)

/-- A value in words, where a text stands for itself. -/
def display (v : Value) : Script η String :=
  match v with
  | .scalar (.text s) _ => return s
  | v => describe v

/-- What a value is made of, in the older of two ways. -/
def reduction (v : Value) : Script η Value := do
  return .tuple [.other "function", .tuple [.other "type", .other "type", .null], ← stateOf v]

/-- What every value offers under a name. -/
def runUniversal (v : Value) (name : String) (args : List Value) (named : List (String × Value)) :
    Script η Value := do
  if Names.comparisons.contains name then
    expect name 1 args named
    return .other "NotImplementedType"
  match name with
  | "__delattr__" =>
    expect name 1 args named
    let asked ← attributeName (args.headD .null)
    if asked = "__class__" then misuse .classErased
    erase v asked
    return .null
  | "__getattribute__" =>
    expect name 1 args named
    let asked ← attributeName (args.headD .null)
    match ← ownAttribute? v asked with
    | some found => return found
    | none => throw (.noAttribute v.typeName asked)
  | "__setattr__" =>
    if !named.isEmpty then misuse (.noNames ("wrapper " ++ name))
    match args with
    | [asked, given] =>
      assign v (← attributeName asked) given
      return .null
    | _ => misuse (.pairCount args.length)
  | "__hash__" =>
    expect name 0 args named
    return .int 0
  | "__str__" | "__repr__" =>
    expect name 0 args named
    return .text (← if name = "__str__" then display v else describe v)
  | "__dir__" =>
    expectFew v name 0 args named
    return .list ((← namesOf v).map Value.text)
  | "__getstate__" =>
    expectFew v name 0 args named
    stateOf v
  | "__reduce__" =>
    expectFew v name 0 args named
    reduction v
  | "__sizeof__" =>
    expectFew v name 0 args named
    return .int 24
  | "__init_subclass__" =>
    expectFew v name 0 args named
    return .null
  | "__format__" =>
    expectFew v name 1 args named
    match args.headD .null with
    | .scalar (.text "") _ => return .text (← display v)
    | .scalar (.text _) _ => misuse (.unknownFormat v.typeName)
    | other => misuse (.formatNotText other.typeName)
  | "__reduce_ex__" =>
    expectFew v name 1 args named
    match args.headD .null with
    | .scalar (.int i) _ =>
      if i < 2 then reduction v
      else return .tuple [.other "function", .tuple [.other "type"], ← stateOf v, .null, .null]
    | .scalar (.bool _) _ => reduction v
    | other => misuse (.notWhole other.typeName)
  | "__subclasshook__" =>
    if !named.isEmpty then misuse (.noNames name)
    return .other "NotImplementedType"
  | "__new__" =>
    match args with
    | [] => misuse .nothingToMake
    | first :: _ => misuse (.notType first.typeName)
  | _ => throw .noTree

end Retouch.Script
