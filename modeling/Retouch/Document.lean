import Retouch.Assoc
import Retouch.Fault
import Retouch.Forest.Walk

/-!
# Documents and paths

A path is a node together with the path of the node that holds it and the slot it fills there.
Child paths are made on demand and kept in the parent path's cache by slot, so asking twice for a
place gives the same path. A document is a forest with the paths into it.
-/

namespace Retouch

/-- The identity of a path in a document. -/
abbrev PathId := Nat

/-- A place in a tree. A root path has neither parent nor slot. -/
structure Path where
  node : NodeId
  parent : Option PathId
  slot : Option Int
  cache : List (Int × PathId)
deriving DecidableEq, Repr, Inhabited

/-- Nodes and the paths into them. -/
structure Document where
  forest : Forest
  paths : Array Path
deriving Inhabited

namespace Document

/-- The document without nodes and paths. -/
def empty : Document := ⟨.empty, #[]⟩

/-- The path under an identity. -/
def path (d : Document) (p : PathId) : Path :=
  d.paths.getD p default

/-- The node a path stands on. -/
def nodeAt (d : Document) (p : PathId) : Node :=
  d.forest.node (d.path p).node

/-- The document with a node changed. -/
def modifyNode (d : Document) (n : NodeId) (change : Node → Node) : Document :=
  { d with forest := d.forest.modify n change }

/-- The document with a path changed. -/
def modifyPath (d : Document) (p : PathId) (change : Path → Path) : Document :=
  { d with paths := d.paths.modify p change }

@[simp]
theorem path_modifyNode (d : Document) (n : NodeId) (change : Node → Node) (p : PathId) :
    (d.modifyNode n change).path p = d.path p := rfl

@[simp]
theorem forest_modifyPath (d : Document) (p : PathId) (change : Path → Path) :
    (d.modifyPath p change).forest = d.forest := rfl

@[simp]
theorem size_modifyPath (d : Document) (p : PathId) (change : Path → Path) :
    (d.modifyPath p change).paths.size = d.paths.size := by
  simp [modifyPath]

theorem path_modifyPath (d : Document) (p q : Nat) (change : Path → Path)
    (hp : p < d.paths.size) :
    (d.modifyPath p change).path q = if q = p then change (d.path q) else d.path q := by
  unfold modifyPath path
  by_cases hq : q < d.paths.size
  · by_cases h : q = p
    · subst h
      simp [Array.getD, hq, Array.getElem_modify]
    · have : ¬ p = q := fun e => h e.symm
      simp [Array.getD, hq, Array.getElem_modify, h, this]
  · have h : ¬ q = p := fun e => hq (e ▸ hp)
    simp [Array.getD, hq, h]

theorem path_push (d : Document) (x : Path) (q : Nat) :
    path { d with paths := d.paths.push x } q = if q = d.paths.size then x else d.path q := by
  unfold path
  by_cases h : q = d.paths.size
  · subst h
    simp [Array.getD]
  · by_cases hq : q < d.paths.size
    · simp [Array.getD, hq, Array.getElem_push, Nat.lt_succ_of_lt hq, h]
    · have : ¬ q < d.paths.size + 1 := by omega
      simp [Array.getD, hq, this, h]

/-- A new root path and the document with it. -/
def addRoot (d : Document) (n : NodeId) : PathId × Document :=
  (d.paths.size, { d with paths := d.paths.push ⟨n, none, none, []⟩ })

/-- A new child path, which takes over its slot in the parent's cache. -/
def attach (d : Document) (n : NodeId) (parent : PathId) (slot : Int) : PathId × Document :=
  let p := d.paths.size
  let d := { d with paths := d.paths.push ⟨n, some parent, some slot, []⟩ }
  (p, d.modifyPath parent fun x => { x with cache := Assoc.insert x.cache slot p })

@[simp]
theorem forest_attach (d : Document) (n : NodeId) (parent : PathId) (slot : Int) :
    (d.attach n parent slot).2.forest = d.forest := rfl

@[simp]
theorem size_attach (d : Document) (n : NodeId) (parent : PathId) (slot : Int) :
    (d.attach n parent slot).2.paths.size = d.paths.size + 1 := by
  simp [attach]

theorem path_attach (d : Document) (n : NodeId) {parent : Nat} (slot : Int) (q : Nat)
    (hp : parent < d.paths.size) :
    (d.attach n parent slot).2.path q =
      if q = d.paths.size then ⟨n, some parent, some slot, []⟩
      else if q = parent then
        { d.path q with cache := Assoc.insert (d.path q).cache slot d.paths.size }
      else d.path q := by
  unfold attach
  rw [path_modifyPath _ _ _ _ (by simp; omega), path_push]
  by_cases hq : q = d.paths.size
  · rw [if_pos hq, if_pos hq, if_neg (by omega)]
  · rw [if_neg hq, if_neg hq]

/-- The path of the child `n` in a slot: the cached one if it still stands on `n`. -/
def childIn (d : Document) (p : PathId) (slot : Int) (n : NodeId) : PathId × Document :=
  match Assoc.get? (d.path p).cache slot with
  | some q => if (d.path q).node = n then (q, d) else d.attach n p slot
  | none => d.attach n p slot

/-- Follows parents up. -/
def rootFrom (d : Document) : Nat → PathId → PathId
  | 0, p => p
  | fuel + 1, p =>
    match (d.path p).parent with
    | none => p
    | some q => rootFrom d fuel q

/-- The path at the top. Parents are older than their children, so there are fewer steps up than
paths. -/
def root (d : Document) (p : PathId) : PathId :=
  d.rootFrom d.paths.size p

/-- Lists parents from the nearest up. -/
def ancestorsFrom (d : Document) : Nat → PathId → List PathId
  | 0, _ => []
  | fuel + 1, p =>
    match (d.path p).parent with
    | none => []
    | some q => q :: ancestorsFrom d fuel q

/-- The paths above a path, nearest first. -/
def ancestors (d : Document) (p : PathId) : List PathId :=
  d.ancestorsFrom d.paths.size p

/-- The field of the slot that holds the path's node. -/
def fieldAt (d : Document) (p : PathId) : Except Fault (Option String) :=
  match (d.path p).parent, (d.path p).slot with
  | some q, some slot =>
    match Slot.get? (d.nodeAt q).fields slot with
    | some field => .ok field
    | none => .error (.outside slot .slotOutOfRange)
  | _, _ => .ok none

/-- A path in words. -/
def describe (d : Document) (p : PathId) : String :=
  let kind := (d.nodeAt p).kind
  match (d.path p).parent with
  | none => "NodePath(" ++ kind ++ ", root)"
  | some q =>
    let slot := match (d.path p).slot with
      | some i => toString i
      | none => "None"
    "NodePath(" ++ kind ++ ", " ++ (d.nodeAt q).kind ++ "[" ++ slot ++ "])"

/-- Tells the paths that were cached behind a slot that they have moved by `delta`. -/
def moveBehind (d : Document) (cache : List (Int × PathId)) (slot delta : Int) : Document :=
  cache.foldl
    (fun d entry =>
      if slot < entry.1 then
        d.modifyPath entry.2 fun x => { x with slot := some (entry.1 + delta) }
      else d) d

/-- The entry of a cache after the paths behind a slot have moved by `delta`; the path in the slot
is dropped. -/
def movedEntry (slot delta : Int) (entry : Int × PathId) : Option (Int × PathId) :=
  if entry.1 < slot then some entry
  else if slot < entry.1 then some (entry.1 + delta, entry.2)
  else none

/-- Drops the cached path of a slot and moves the later ones by `delta`. -/
def reindex (d : Document) (p : PathId) (slot delta : Int) : Document :=
  let cache := (d.path p).cache
  (d.moveBehind cache slot delta).modifyPath p fun x =>
    { x with cache := cache.filterMap (movedEntry slot delta) }

/-- Puts nodes in the place of one slot of a node, each in the field of that slot, and moves the
cached paths of the later slots. -/
def spliceSlot (d : Document) (holder : PathId) (slot : Int) (field : Option String)
    (nodes : List NodeId) : Document :=
  let d := d.modifyNode (d.path holder).node fun x =>
    { x with
      children := Slot.splice x.children slot (slot + 1) nodes
      fields := Slot.splice x.fields slot (slot + 1) (List.replicate nodes.length field) }
  d.reindex holder slot ((nodes.length : Int) - 1)

/-- Takes a path out of its parent. -/
def detach (d : Document) (p : PathId) : Document :=
  d.modifyPath p fun x => { x with parent := none, slot := none }

/-- Moves a path to another node, whose children it has not seen yet. -/
def retarget (d : Document) (p : PathId) (n : NodeId) : Document :=
  d.modifyPath p fun x => { x with node := n, cache := [] }

/-- Puts a path into its parent's cache. -/
def enter (d : Document) (p holder : PathId) (slot : Int) : Document :=
  d.modifyPath holder fun x => { x with cache := Assoc.insert x.cache slot p }

@[simp]
theorem forest_detach (d : Document) (p : PathId) : (d.detach p).forest = d.forest := rfl

@[simp]
theorem forest_retarget (d : Document) (p : PathId) (n : NodeId) :
    (d.retarget p n).forest = d.forest := rfl

@[simp]
theorem forest_enter (d : Document) (p holder : PathId) (slot : Int) :
    (d.enter p holder slot).forest = d.forest := rfl

end Document

end Retouch
