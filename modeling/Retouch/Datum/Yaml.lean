import Retouch.Datum.Yaml.Tree

/-!
# Data in documents

The value of a document. A mapping takes the entries of the mappings merged into it first and its
own after them, and of two entries of one key the first spelling and the last value remain. A
document is gone through level by level, so that of several values that cannot be read the one
nearest to the top is told, and on one level the first.
-/

namespace Retouch.Yaml

namespace Tree

/-- The label of a node. -/
def label : Tree → Label
  | .scalar l _ => l
  | .list l _ => l
  | .mapping l _ => l

/-- Whether the entry's key asks for a merge. -/
def isMerge (entry : Tree × Tree) : Bool :=
  entry.1.label == .merge

/-- The key of the default value as a text. -/
def plainKey : Tree × Tree → Tree × Tree
  | (.scalar .default text, v) => (.scalar .text text, v)
  | entry => entry

/-- The entries of a mapping, those merged into it first. Mappings in a list are merged from the
last one on. -/
def merged : Nat → List (Tree × Tree) → Except Trouble (List (Tree × Tree))
  | 0, _ => .error .malformed
  | fuel + 1, entries => do
    let found ← (entries.filter isMerge).mapM fun (_, v) => match v with
      | .mapping _ inner => merged fuel inner
      | .list _ items => do
        let each ← items.mapM fun item => match item with
          | .mapping _ inner => merged fuel inner
          | _ => .error .malformed
        return each.reverse.flatten
      | .scalar _ _ => .error .malformed
    return found.flatten ++ (entries.filter fun entry => !isMerge entry).map plainKey

/-- The text of a node that is to be a scalar. A mapping with a default value is that value. -/
def scalarText : Nat → Tree → Except Trouble String
  | 0, _ => .error .malformed
  | _ + 1, .scalar _ text => .ok text
  | _ + 1, .list _ _ => .error .malformed
  | fuel + 1, .mapping _ entries =>
    match entries.find? fun entry => entry.1.label == .default with
    | some (_, v) => scalarText fuel v
    | none => .error .malformed

/-- Whether a node is read as a collection. -/
def isCollection (t : Tree) : Bool :=
  t.label == .list || t.label == .mapping

/-- The value of a node that is no collection. -/
def scalarValue (fuel : Nat) (t : Tree) : Except Trouble Scalar := do
  t.label.scalar (← scalarText fuel t)

/-- Reads what is no collection, and leaves a collection for the next level. -/
def visit (fuel : Nat) (t : Tree) : Except Trouble (List Tree) :=
  if t.isCollection then .ok [t] else (scalarValue fuel t).map fun _ => []

/-- The collections inside a collection whose other members can all be read. -/
def inner (fuel : Nat) (t : Tree) : Except Trouble (List Tree) := do
  match t with
  | .list .list items => return (← items.mapM (visit fuel)).flatten
  | .mapping .mapping entries =>
    let found ← (← merged fuel entries).mapM fun (k, v) => do
      if k.isCollection then throw .malformed
      let _ ← visit fuel k
      visit fuel v
    return found.flatten
  | _ => throw .malformed

/-- Goes through collections level by level. -/
def levels (fuel : Nat) : Nat → List Tree → Except Trouble Unit
  | 0, _ => .ok ()
  | _ + 1, [] => .ok ()
  | n + 1, ts => do levels fuel n (← ts.mapM (inner fuel)).flatten

/-- The value of a node in which everything can be read. -/
def datum : Nat → Tree → Except Trouble Datum
  | 0, _ => .error .malformed
  | fuel + 1, t =>
    match t with
    | .list .list items => do return .list (← items.mapM (datum fuel))
    | .mapping .mapping entries => do
      let pairs ← (← merged fuel entries).mapM fun (k, v) => do
        return (← scalarValue fuel k, ← datum fuel v)
      return .mapping (Assoc.ofList pairs)
    | t => do return .scalar (← scalarValue fuel t)

end Tree

/-- The value a text holds. A text without a document holds nothing. -/
def parse (text : String) : Except Trouble Datum := do
  match ← tree text with
  | none => return .null
  | some t =>
    let fuel := text.length + 2
    Tree.levels fuel fuel (← t.visit fuel)
    t.datum fuel

end Retouch.Yaml
