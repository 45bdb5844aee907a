import Retouch.Forest
import Retouch.Printer

/-!
# Concrete syntax trees

What a grammar makes of a source: an ordered tree of kinds and byte spans, with tokens and comments
as nodes of their own. `firstBad` finds the first node that stands for an error, and `plant` puts
the tree into a forest in document order, where every node is marked once its children are
complete.
-/

namespace Retouch

/-- A node of a concrete syntax tree with the field it fills in its parent. A missing node was
supplied by the grammar to mend the source. -/
inductive SyntaxTree where
  | node (kind : String) (start stop : Nat) (named missing : Bool) (field : Option String)
      (children : List SyntaxTree)
deriving Inhabited

namespace SyntaxTree

/-- The kind. -/
def kind : SyntaxTree → String
  | .node kind _ _ _ _ _ _ => kind

/-- The offset of the first byte. -/
def start : SyntaxTree → Nat
  | .node _ start _ _ _ _ _ => start

/-- The offset behind the last byte. -/
def stop : SyntaxTree → Nat
  | .node _ _ stop _ _ _ _ => stop

/-- Whether the node is named by the grammar. -/
def named : SyntaxTree → Bool
  | .node _ _ _ named _ _ _ => named

/-- The field in the parent. -/
def field : SyntaxTree → Option String
  | .node _ _ _ _ _ field _ => field

/-- The children in order. -/
def children : SyntaxTree → List SyntaxTree
  | .node _ _ _ _ _ _ children => children

mutual

/-- The number of nodes. -/
def count : SyntaxTree → Nat
  | .node _ _ _ _ _ _ children => countAll children + 1

/-- The number of nodes of several trees. -/
def countAll : List SyntaxTree → Nat
  | [] => 0
  | t :: ts => count t + countAll ts

end

theorem count_eq (t : SyntaxTree) : t.count = countAll t.children + 1 := by
  cases t
  rfl

/-- The tree whose nodes are given in pre-order, each with the number of its children and as a
function of them: a node takes as many of the trees after it as it has children. -/
def ofPreorder (nodes : List (Nat × (List SyntaxTree → SyntaxTree))) : SyntaxTree :=
  (nodes.foldr (fun node trees => node.2 (trees.take node.1) :: trees.drop node.1) []).headD default

/-- Whether the node stands for a syntax error. -/
def isBad : SyntaxTree → Bool
  | .node kind _ _ _ missing _ _ => kind == "ERROR" || missing

theorem sizeOf_append (ts us : List SyntaxTree) :
    sizeOf (ts ++ us) + 1 = sizeOf ts + sizeOf us := by
  induction ts with
  | nil => simp; omega
  | cons t ts ih => simp only [List.cons_append, List.cons.sizeOf_spec]; omega

theorem sizeOf_children (t : SyntaxTree) : sizeOf t.children < sizeOf t := by
  cases t
  simp only [children, node.sizeOf_spec]
  omega

/-- Takes nodes off the stack, the children of a node before what stands below it, up to a bad
one. -/
def firstBadFrom : List SyntaxTree → Option SyntaxTree
  | [] => none
  | t :: rest => if t.isBad then some t else firstBadFrom (t.children ++ rest)
termination_by stack => sizeOf stack
decreasing_by
  have h := sizeOf_append t.children rest
  have hc := sizeOf_children t
  simp only [List.cons.sizeOf_spec]
  omega

/-- The first bad node in document order, or the node itself if there is none. -/
def firstBad (t : SyntaxTree) : SyntaxTree :=
  (firstBadFrom [t]).getD t

/-- The line and the byte within it at which an offset lies, both counted from zero. -/
def pointAt (data : ByteArray) (offset : Nat) : Nat × Nat :=
  let before := (data.extract 0 offset).toList
  let (row, column) := before.foldl
    (fun point byte => if byte = 10 then (point.1 + 1, 0) else (point.1, point.2 + 1)) (0, 0)
  (row, column + (offset - before.length))

/-- The text of a node: a tree without children has one. -/
def leafText (source : Source) (t : SyntaxTree) : Except Fault (Option String) :=
  if t.children.isEmpty then (source.slice t.start t.stop).map some else .ok none

/-- The node of a tree, before it has children. -/
def bare (source : Source) (t : SyntaxTree) : Except Fault Node := do
  let text ← t.leafText source
  return { kind := t.kind
           text := text
           children := []
           fields := []
           named := t.named
           span := some (t.start, t.stop)
           source := some source
           snapshot := none }

/-- The number of steps that planting still takes: every node is opened and closed. -/
def outstanding (stack : List (NodeId × List SyntaxTree)) : Nat :=
  stack.foldr (fun frame steps => 2 * countAll frame.2 + 1 + steps) 0

/-- Plants what is still to come, in document order. On the stack are the nodes that are open, the
innermost first, each with the trees that are to become its next children. A tree with children is
opened in turn; a node is marked as soon as nothing is to come below it. -/
def plantFrom (source : Source) :
    List (NodeId × List SyntaxTree) → Forest → Except Fault Forest
  | [], forest => .ok forest
  | (owner, []) :: rest, forest => plantFrom source rest (forest.modify owner Node.marked)
  | (owner, t :: ts) :: rest, forest => do
    let node ← bare source t
    let (n, forest) := forest.add node
    let forest := forest.modify owner fun x => x.withChild n t.field
    if t.children.isEmpty then
      plantFrom source ((owner, ts) :: rest) (forest.modify n Node.marked)
    else plantFrom source ((n, t.children) :: (owner, ts) :: rest) forest
termination_by stack => outstanding stack
decreasing_by
  · simp [outstanding]
  · have ht := count_eq t
    simp only [outstanding, List.foldr_cons, countAll]
    omega
  · have ht := count_eq t
    simp only [outstanding, List.foldr_cons, countAll]
    omega

/-- Puts the tree of a whole source into a forest; its root covers all of the source. -/
def plant (source : Source) (t : SyntaxTree) (forest : Forest) :
    Except Fault (NodeId × Forest) := do
  let node ← bare source t
  let (root, forest) := forest.add { node with span := some (0, (source.size : Int)) }
  return (root, ← plantFrom source [(root, t.children)] forest)

end SyntaxTree

end Retouch
