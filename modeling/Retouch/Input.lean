import Retouch.Edit

/-!
# Inputs

What a caller may hand over: source text, a node, a path, or a sequence. A sequence is accepted if
its items are all paths or all nodes; the empty one counts as paths. Everything else is refused by
the name of its type.
-/

namespace Retouch

/-- A value without parts. Values that are never accepted are known by the name of their type. -/
inductive Item where
  | text (s : String)
  | node (n : NodeId)
  | path (p : PathId)
  | other (typeName : String)
deriving DecidableEq, Repr, Inhabited

/-- A value handed over. -/
inductive Input where
  | item (i : Item)
  | sequence (typeName : String) (items : List Item)
deriving Repr, Inhabited

/-- An accepted input. -/
inductive Accepted where
  | text (s : String)
  | node (n : NodeId)
  | nodes (ns : List NodeId)
  | path (p : PathId)
  | paths (ps : List PathId)
deriving DecidableEq, Repr, Inhabited

namespace Item

/-- The name of the value's type. -/
def typeName : Item → String
  | .text _ => "str"
  | .node _ => "Node"
  | .path _ => "NodePath"
  | .other name => name

/-- The path, if it is one. -/
def path? : Item → Option PathId
  | .path p => some p
  | _ => none

/-- The node, if it is one. -/
def node? : Item → Option NodeId
  | .node n => some n
  | _ => none

/-- The refusal of a value. -/
def unsupported (i : Item) : Fault :=
  .tool (.unsupportedInput i.typeName)

end Item

namespace Input

/-- The name of the value's type. -/
def typeName : Input → String
  | .item i => i.typeName
  | .sequence name _ => name

/-- Decides what a value is. -/
def classify : Input → Except Fault Accepted
  | .item (.text s) => .ok (.text s)
  | .item (.node n) => .ok (.node n)
  | .item (.path p) => .ok (.path p)
  | .item (.other name) => .error (.tool (.unsupportedInput name))
  | .sequence name items =>
    match items.mapM Item.path? with
    | some ps => .ok (.paths ps)
    | none =>
      match items.mapM Item.node? with
      | some ns => .ok (.nodes ns)
      | none => .error (.tool (.unsupportedInput name))

end Input

namespace Accepted

/-- The name of an input's shape. -/
def shape : Accepted → String
  | .text _ => "text"
  | .node _ => "node"
  | .nodes _ => "node_sequence"
  | .path _ => "path"
  | .paths _ => "path_sequence"

end Accepted

end Retouch
