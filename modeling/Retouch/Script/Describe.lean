import Retouch.Forest.Describe
import Retouch.Script.Session

/-!
# Values in words

How a value is written for readers. What is only known by its type is written as that.
-/

namespace Retouch.Script

variable {η : Type}

/-- Texts between brackets. -/
def bracketed (opening closing : String) (texts : List String) : String :=
  opening ++ String.intercalate ", " texts ++ closing

/-- The items of a sequence in words. A tuple of one item keeps its comma. -/
def describeItems (form : Form) (texts : List String) : String :=
  match form, texts with
  | .list, texts => bracketed "[" "]" texts
  | .tuple, [single] => "(" ++ single ++ ",)"
  | .tuple, texts => bracketed "(" ")" texts
  | .frozen, [] => "frozenset()"
  | .frozen, texts => bracketed "frozenset(\x7b" "\x7d)" texts
  | .generator, _ => Form.generator.typeName

/-- How many plugins a value holds. -/
def describeCount (v : Value) : Script η String := do
  match v with
  | .plugins r => return toString (← work (Work.plugins r)).length
  | .sequence .generator _ _ => misuse (.noLength v.typeName)
  | .sequence _ _ items => return toString items.length
  | .mapping _ entries => return toString entries.length
  | .scalar (.text s) _ => return toString s.length
  | .collection c => return toString (← held c).value.paths.length
  | v => misuse (.noLength v.typeName)

mutual

/-- A value in words, given how entry points are written and what stands in the place of nodes. -/
def describeWith (entry : EntryId → Script η String) (wording : NodeId → Option String) :
    Value → Script η String
  | .scalar s _ => return s.literal
  | .sequence form _ items => do return describeItems form (← describeAll entry wording items)
  | .mapping _ entries => do
    return bracketed "\x7b" "\x7d" (← describeEntries entry wording entries)
  | .node n => do return (← forest).describeWith wording n
  | .path p => do
    requireNodes [((← document).path p).node] "type"
    return (← document).describe p
  | .source s => return s.describe
  | .collection c => do return (← held c).value.describe
  | .entry e => entry e
  | .parser p => do return (← work (Work.parser p)).describe
  | .printer _ p => return p.describe
  | .plugin p => do return ((← session).family.getD p default).name
  | .language l => return l.describe
  | v => return v.typeName

/-- Values in words. -/
def describeAll (entry : EntryId → Script η String) (wording : NodeId → Option String) :
    List Value → Script η (List String)
  | [] => return []
  | v :: rest => do
    return (← describeWith entry wording v) :: (← describeAll entry wording rest)

/-- Entries of a mapping in words. -/
def describeEntries (entry : EntryId → Script η String) (wording : NodeId → Option String) :
    List (Scalar × Value) → Script η (List String)
  | [] => return []
  | (k, v) :: rest => do
    let text ← describeWith entry wording v
    return (k.literal ++ ": " ++ text) :: (← describeEntries entry wording rest)

end

/-- An entry point in words, with so many entry points inside one another. -/
def describeEntry (wording : NodeId → Option String) : Nat → EntryId → Script η String
  | 0, _ => throw .endless
  | depth + 1, e => do
    let p ← parts e
    return "Core(parser=" ++ (← describeWith (describeEntry wording depth) wording p.parser) ++
      ", plugins=" ++ (← describeCount p.plugins) ++ ")"

/-- A value in words, given what stands in the place of nodes. -/
def describeAmong (wording : NodeId → Option String) (v : Value) : Script η String := do
  describeWith (describeEntry wording ((← session).entries.size + 1)) wording v

/-- A value in words. -/
def describe (v : Value) : Script η String := do
  let strangers ← (← session).strangers.mapM fun entry => do
    return (entry.1, ← describeAmong (fun _ => none) entry.2)
  describeAmong (fun n => Assoc.get? strangers n) v

end Retouch.Script
