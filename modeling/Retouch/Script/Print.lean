import Retouch.Script.Attribute

/-!
# Printing values

A text prints as itself where no source is given. What is no node is missed where the printer first
looks for something that nodes have.
-/

namespace Retouch.Script

variable {η : Type}

/-- Fails where a tree printed without a source has a stranger in it: an only child is asked whether
it is a leaf, siblings are asked for their kinds, the later of two first. -/
def requirePlain (n : NodeId) : Script η Unit := do
  if (← session).strangers.isEmpty then return ()
  let f ← forest
  for m in f.walk n do
    if !(f.node m).isLeaf then
      match (f.node m).children with
      | [] => pure ()
      | [child] => requireNodes [child] "is_leaf"
      | first :: second :: rest => requireNodes (second :: first :: rest) "type"

/-- Fails where a tree printed with a source has a stranger in it. -/
def requireTree (n : NodeId) (name : String) : Script η Unit := do
  if (← session).strangers.isEmpty then return ()
  requireNodes ((← forest).walk n) name

/-- Prints a value with a printer, after an earlier source if one is given. -/
def printWith (printer : Printer) (node base : Value) : Script η String := do
  match base, node with
  | .scalar .null _, .scalar (.text s) _ => return s
  | .scalar .null _, .node n =>
    requirePlain n
    ofExcept (printer.print (← forest) n none)
  | .scalar .null _, v =>
    let _ ← member v "is_leaf"
    throw .noTree
  | source, .node n =>
    requireTree n "children"
    ofExcept (printer.print (← forest) n (some (source.source?.getD default)))
  | _, v =>
    let _ ← member v "children"
    throw .noTree

/-- Prints the tree that a collection lives in, with so many steps up to the collection it was
derived from. -/
def toSourceFrom : Nat → CollectionId → Script η String
  | 0, _ => throw .endless
  | steps + 1, c => do
    let h ← held c
    let top := { h.value with parent := none }
    match h.parent, h.printer, (← session).strangers with
    | .collection q, _, _ => toSourceFrom steps q
    | .scalar .null _, .printer _ _, [] => work (Work.toSource top)
    | .scalar .null _, printer, _ =>
      let root ← work (Work.rootToPrint top)
      match printer with
      | .printer _ p =>
        printWith p (← atPlace root) (.ofOption .source ((← forest).node root).source)
      | v =>
        let _ ← member v "print"
        throw .noTree
    | v, _, _ =>
      let _ ← member v "to_source"
      throw .noTree

/-- Prints the tree that a collection lives in. -/
def toSource (c : CollectionId) : Script η String := do
  toSourceFrom ((← session).collections.size + 1) c

end Retouch.Script
