import Retouch.Source

/-!
# Nodes that can be edited in place

A forest holds nodes under identities; child lists hold identities, so a node may stand in several
slots and two nodes of equal shape stay two nodes. A parsed node remembers in its snapshot how it
looked when it was parsed. There are no marks to keep up to date: whether a node was modified is
read off the node and its snapshot.
-/

namespace Retouch

/-- The identity of a node in a forest. -/
abbrev NodeId := Nat

/-- A node's own text and child list as the parser left them. -/
structure Snapshot where
  text : Option String
  children : List NodeId
deriving DecidableEq, Repr, Inhabited

/-- A leaf carries text, an inner node children and for each child slot the field it fills. -/
structure Node where
  kind : String
  text : Option String
  children : List NodeId
  fields : List (Option String)
  named : Bool
  span : Option (Int × Int)
  source : Option Source
  snapshot : Option Snapshot
deriving Inhabited

namespace Node

/-- A new leaf. -/
def leaf (kind text : String) (named : Bool) : Node where
  kind := kind
  text := some text
  children := []
  fields := []
  named := named
  span := none
  source := none
  snapshot := none

/-- A new inner node. -/
def branch (kind : String) (children : List NodeId) (fields : List (Option String)) : Node where
  kind := kind
  text := none
  children := children
  fields := fields
  named := true
  span := none
  source := none
  snapshot := none

/-- Slots beyond the given fields fill no field. -/
def padded (n : Node) : Node :=
  { n with fields := n.fields ++ List.replicate (n.children.length - n.fields.length) none }

/-- Whether the node is printed from its own text. -/
def isLeaf (n : Node) : Bool :=
  n.text.isSome || n.children.isEmpty

/-- Whether the node came from a parse. -/
def isParsed (n : Node) : Bool :=
  n.span.isSome && n.source.isSome && n.snapshot.isSome

/-- The children that the parser gave the node. -/
def formerChildren (n : Node) : List NodeId :=
  (n.snapshot.map Snapshot.children).getD []

/-- The node with one more child, which fills a field. -/
def withChild (n : Node) (child : NodeId) (field : Option String) : Node :=
  { n with children := n.children ++ [child], fields := n.fields ++ [field] }

/-- The node with its present text and children taken as those of the parse. -/
def marked (n : Node) : Node :=
  { n with snapshot := some ⟨n.text, n.children⟩ }

/-- Whether the node's own text or child list differs from the parse; a node that was never parsed
counts as modified. -/
def isModified (n : Node) : Bool :=
  match n.snapshot with
  | none => true
  | some s => !(n.span.isSome && n.source.isSome && n.text == s.text && n.children == s.children)

/-- The first child whose slot fills the field. -/
def childByField (n : Node) (field : Option String) : Option NodeId :=
  ((n.children.zip n.fields).find? fun slot => slot.2 == field).map Prod.fst

end Node

/-- Nodes by identity. -/
structure Forest where
  nodes : Array Node
deriving Inhabited

namespace Forest

/-- The forest without nodes. -/
def empty : Forest := ⟨#[]⟩

/-- The number of nodes. -/
def size (f : Forest) : Nat :=
  f.nodes.size

/-- The node under an identity. -/
def node (f : Forest) (n : NodeId) : Node :=
  f.nodes.getD n default

/-- A new node and the forest with it. -/
def add (f : Forest) (node : Node) : NodeId × Forest :=
  (f.size, ⟨f.nodes.push node.padded⟩)

/-- The forest with one node changed. -/
def modify (f : Forest) (n : NodeId) (change : Node → Node) : Forest :=
  ⟨f.nodes.modify n change⟩

@[simp]
theorem size_add (f : Forest) (x : Node) : (f.add x).2.size = f.size + 1 := by
  simp [add, size]

theorem node_add (f : Forest) (x : Node) (m : Nat) :
    (f.add x).2.node m = if m = f.size then x.padded else f.node m := by
  unfold add node size
  by_cases h : m = f.nodes.size
  · subst h
    simp [Array.getD]
  · rw [if_neg h]
    by_cases hm : m < f.nodes.size
    · simp [Array.getD, hm, Array.getElem_push, Nat.lt_succ_of_lt hm]
    · have : ¬ m < f.nodes.size + 1 := by omega
      simp [Array.getD, hm, this]

theorem node_modify (f : Forest) (n m : Nat) (change : Node → Node) (hn : n < f.size) :
    (f.modify n change).node m = if m = n then change (f.node m) else f.node m := by
  unfold modify node
  unfold size at hn
  by_cases hm : m < f.nodes.size
  · by_cases h : m = n
    · subst h
      simp [Array.getD, hm, Array.getElem_modify]
    · have : ¬ n = m := fun e => h e.symm
      simp [Array.getD, hm, Array.getElem_modify, h, this]
  · have h : ¬ m = n := fun e => hm (e ▸ hn)
    simp [Array.getD, hm, h]

@[simp]
theorem size_modify (f : Forest) (n : NodeId) (change : Node → Node) :
    (f.modify n change).size = f.size := by
  simp [modify, size]

end Forest

end Retouch
