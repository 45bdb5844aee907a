import Retouch.Document
import Retouch.Outcome

/-!
# Edits through paths

Making paths, asking for child paths and replacing nodes through them. Every check of an edit comes
before its first change, so an edit that fails leaves the document as it was.
-/

namespace Retouch

/-- An edit may fail; what was changed before the failure stays changed. -/
abbrev Edit := ExceptT Fault (StateM Document)

namespace Edit

/-- A new node. -/
def addNode (node : Node) : Edit NodeId := do
  let d ← get
  let (n, forest) := d.forest.add node
  set { d with forest := forest }
  return n

/-- Changes a node in place. -/
def modifyNode (n : NodeId) (change : Node → Node) : Edit Unit :=
  modify fun d => d.modifyNode n change

/-- Changes a path in place. -/
def modifyPath (p : PathId) (change : Path → Path) : Edit Unit :=
  modify fun d => d.modifyPath p change

/-- Puts another child list in the place of a node's; fields and paths are left alone. Answers the
new number of children. -/
def setChildren (n : NodeId) (children : List NodeId) : Edit Nat := do
  modifyNode n fun x => { x with children := children }
  return children.length

/-- Puts a child in front of a position. -/
def insertChild (n : NodeId) (slot : Int) (child : NodeId) : Edit Nat := do
  if !Word.holds slot then throw .placeTooLarge
  setChildren n (Slot.insert ((← get).forest.node n).children slot child)

/-- Puts a child in the place of another. -/
def setChild (n : NodeId) (slot : Int) (child : NodeId) : Edit Nat := do
  match Slot.set? ((← get).forest.node n).children slot child with
  | some children => setChildren n children
  | none => throw (.outside slot .noSuchChild)

/-- Takes a child out. -/
def eraseChild (n : NodeId) (slot : Int) : Edit Nat := do
  match Slot.erase? ((← get).forest.node n).children slot with
  | some children => setChildren n children
  | none => throw (.outside slot .noSuchChild)

/-- Wraps a node in so many new nodes of a kind, each the only child of the next. -/
def wrap (kind : String) (n : NodeId) : Nat → Edit NodeId
  | 0 => return n
  | depth + 1 => do wrap kind (← addNode (.branch kind [n] [])) depth

/-- A new root path. -/
def addRoot (n : NodeId) : Edit PathId := do
  let d ← get
  let (p, d) := d.addRoot n
  set d
  return p

/-- A new path. A parent and a slot go together, and the slot must hold the node. -/
def addPath (n : NodeId) (parent : Option PathId) (slot : Option Int) : Edit PathId := do
  match parent, slot with
  | none, none => addRoot n
  | some q, some slot =>
    let d ← get
    match Slot.get? (d.nodeAt q).children slot with
    | none => throw (.outside slot .slotOutOfRange)
    | some m =>
      if m = n then
        let (p, d) := d.attach n q slot
        set d
        return p
      else throw (.notHeld (d.nodeAt q).kind slot)
  | _, _ => throw .slotWithoutParent

/-- The path of a child, by its position from either end. -/
def child (p : PathId) (index : Int) : Edit PathId := do
  let d ← get
  let children := (d.nodeAt p).children
  match Slot.get? children index with
  | none => throw (.noChild (d.nodeAt p).kind (Slot.fromFront children.length index))
  | some n =>
    let (q, d) := d.childIn p (Slot.fromFront children.length index) n
    set d
    return q

/-- The paths of all children. -/
def childPaths (p : PathId) : Edit (List PathId) := do
  let d ← get
  (List.range (d.nodeAt p).children.length).mapM fun (i : Nat) => child p i

/-- Takes paths off the stack and puts their child paths on it. -/
def walkFrom : Nat → List PathId → Edit (List PathId)
  | _, [] => return []
  | 0, _ :: _ => return []
  | fuel + 1, p :: rest => do
    let below ← childPaths p
    let others ← walkFrom fuel (below ++ rest)
    return p :: others

/-- The path and all paths below it, in pre-order. -/
def walk (p : PathId) : Edit (List PathId) := do
  walkFrom (← get).forest.budget [p]

/-- Puts nodes in the place of the path's node. The path moves to the first of them; without any it
is detached. Answers the paths of the nodes. -/
def replace (p : PathId) (nodes : List NodeId) : Edit (List PathId) := do
  let d ← get
  let path := d.path p
  let kind := (d.nodeAt p).kind
  match path.parent with
  | none =>
    match nodes with
    | [n] =>
      set (d.retarget p n)
      return [p]
    | _ => throw .rootNeedsOne
  | some q =>
    match path.slot with
    | none => throw (.noSlot kind)
    | some slot =>
      let holder := d.nodeAt q
      if (holder.children.length : Int) ≤ slot then throw (.detached kind slot)
      else
        match Slot.get? holder.children slot with
        | none => throw (.outside slot .slotOutOfRange)
        | some held =>
          if held ≠ path.node then throw (.detached kind slot)
          else
            match Slot.get? holder.fields slot with
            | none => throw .slotOutOfRange
            | some field =>
              let d := d.spliceSlot q slot field nodes
              match nodes with
              | [] =>
                set (d.detach p)
                return []
              | first :: rest =>
                set ((d.retarget p first).enter p q slot)
                let others ← (List.range rest.length).mapM fun (i : Nat) => child q (slot + 1 + i)
                return p :: others

/-- Removes the path's node from its parent and answers the parent path. -/
def prune (p : PathId) : Edit (Option PathId) := do
  let parent := ((← get).path p).parent
  let _ ← replace p []
  return parent

/-- The paths of a walk whose nodes pass a test. -/
def find (p : PathId) (wanted : Node → Bool) : Edit (List PathId) := do
  let found ← walk p
  let d ← get
  return found.filter fun q => wanted (d.nodeAt q)

end Edit

end Retouch
