import Retouch.Input
import Retouch.Printer

/-!
# Collections

An ordered sequence of paths with the kind of node it holds. A collection made from another keeps
it as its parent and shares its methods and its printer. The kind is the one all nodes have, and
`"node"` where they differ or there are none. Whoever makes a collection may ask for a kind, and a
collection without paths takes any, be it a text or not.
-/

namespace Retouch

/-- The identity of a method registry. -/
abbrev MethodsId := Nat

/-- Paths, the kind of their nodes, and where the collection came from. -/
structure Collection where
  paths : List PathId
  kind : Datum
  methods : MethodsId
  printer : Printer
  parent : Option Collection
deriving Inhabited

namespace Collection

/-- The kind of a collection of any nodes. -/
def anyKind : String := "node"

/-- The kinds of the nodes, in order. -/
def kinds (d : Document) (paths : List PathId) : List String :=
  paths.map fun p => (d.nodeAt p).kind

/-- The kind that fits the nodes. -/
def inferKind : List String → String
  | [] => anyKind
  | first :: rest => if rest.all (· == first) then first else anyKind

/-- The kind asked for, if the nodes have it. -/
def kindFor (found : List String) (asked : Datum) : Except Fault Datum :=
  match asked with
  | .scalar .null => .ok (.text (inferKind found))
  | asked =>
    if asked.isText anyKind then .ok asked
    else
      match found.find? fun kind => !asked.isText kind with
      | some actual => .error (.tool (.kindMismatch asked actual))
      | none => .ok asked

/-- The items as paths; the first that is none is refused. -/
def pathsOf : List Item → Except Fault (List PathId)
  | [] => .ok []
  | .path p :: rest => do return p :: (← pathsOf rest)
  | i :: _ => .error i.unsupported

/-- A collection of items. -/
def ofItems (d : Document) (items : List Item) (methods : MethodsId) (printer : Printer)
    (parent : Option Collection) (kind : Datum) : Except Fault Collection := do
  let paths ← pathsOf items
  let kind ← kindFor (kinds d paths) kind
  return ⟨paths, kind, methods, printer, parent⟩

/-- A collection of items made from this one. -/
def deriveItems (c : Collection) (d : Document) (items : List Item) (kind : Datum) :
    Except Fault Collection :=
  ofItems d items c.methods c.printer (some c) kind

/-- A collection of paths made from this one. -/
def derive (c : Collection) (d : Document) (paths : List PathId) (kind : Datum) :
    Except Fault Collection :=
  c.deriveItems d (paths.map Item.path) kind

/-- The path at a position from either end. -/
def pathAt (c : Collection) (index : Int) : Except Fault PathId :=
  match Slot.get? c.paths index with
  | some p => .ok p
  | none => .error (.outside index .elementOutOfRange)

/-- The collection of the one path at a position. -/
def single (c : Collection) (d : Document) (index : Int) : Except Fault Collection := do
  c.derive d [← c.pathAt index] .null

/-- The paths of a stretch, with a step. -/
def slice (c : Collection) (d : Document) (start stop step : Option Int) :
    Except Fault Collection :=
  let step := step.getD 1
  if step = 0 then .error .zeroStep
  else c.derive d (Slot.select c.paths start stop step) .null

/-- The paths that satisfy a test. -/
def filter (c : Collection) (test : PathId → Edit Bool) : Edit Collection := do
  let kept ← c.paths.filterM test
  c.derive (← get) kept .null

/-- The path of what a function gave: a path is kept, a node gets a root path of its own. -/
def pathOf : Item → Edit PathId
  | .path p => return p
  | .node n => Edit.addRoot n
  | i => throw i.unsupported

/-- The paths of what a function gave, one by one. -/
def pathsFrom : Option Input → Edit (List PathId)
  | none => return []
  | some (.item i) => do return [← pathOf i]
  | some (.sequence _ items) => items.mapM pathOf

/-- What a function gives for each path, in order: nothing, a path, a node or a sequence. -/
def map (c : Collection) (f : PathId → Edit (Option Input)) (kind : Datum) :
    Edit Collection := do
  let found ← c.paths.mapM fun p => do pathsFrom (← f p)
  c.derive (← get) found.flatten kind

/-- The paths of a kind in the walks of all paths, in order. -/
def descend (c : Collection) (kind : Datum) : Edit Collection := do
  let walks ← c.paths.mapM Edit.walk
  let d ← get
  c.derive d (walks.flatten.filter fun p => kind.isText (d.nodeAt p).kind) kind

/-- Runs an action on every path, in order. -/
def forEach {m : Type → Type} [Monad m] (c : Collection) (action : PathId → m Unit) :
    m Collection := do
  c.paths.forM action
  return c

/-- The kinds of the nodes, each once. -/
def types (c : Collection) (d : Document) : List String :=
  (kinds d c.paths).eraseDups.mergeSort fun a b => !decide (b < a)

/-- Whether there are nodes and all have the kind. -/
def isOfType (c : Collection) (d : Document) (kind : String) : Bool :=
  !c.paths.isEmpty && (kinds d c.paths).all (· == kind)

/-- The collection without parent at the start of the derivation. -/
def origin : Collection → Collection
  | ⟨paths, kind, methods, printer, none⟩ => ⟨paths, kind, methods, printer, none⟩
  | ⟨_, _, _, _, some parent⟩ => origin parent

/-- The nodes at the top of the trees that the paths are in, each once. -/
def roots (c : Collection) (d : Document) : List NodeId :=
  (c.paths.map fun p => (d.path (d.root p)).node).eraseDups

/-- A collection in words. -/
def describe (c : Collection) : String :=
  "Collection(kind=" ++ c.kind.literal ++ ", size=" ++ toString c.paths.length ++ ")"

end Collection

end Retouch
