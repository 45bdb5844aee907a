import Std.Data.HashMap
import Retouch.Fault
import Retouch.Forest.Walk

/-!
# Printing

Over a base text a pristine node is the slice of its own source, a node with text is that text, a
parsed node that was changed is rebuilt from its children with the source text around and between
them wherever that is still known, and a new node joins its children with the separator. Without a
base text every node is a leaf's text or joined.

Both modes take pieces off an explicit stack: a piece is text to write or a node to be expanded into
pieces.
-/

namespace Retouch

/-- Tokens that stand close to what precedes them. -/
def tightBefore : List String := [")", "]", "\x7d", ";", ",", ".", ":"]

/-- Tokens that stand close to what follows them. -/
def tightAfter : List String := ["(", "[", "."]

/-- What the printer still has to write. -/
inductive Piece where
  | text (s : String)
  | node (n : NodeId)
deriving DecidableEq, Repr, Inhabited

/-- Joins the tokens of new nodes with a separator. -/
structure Printer where
  separator : String
deriving DecidableEq, Repr, Inhabited

namespace Forest

/-- Whether two neighbours are set apart. -/
def spaced (f : Forest) (prev cur : NodeId) : Bool :=
  !tightBefore.contains (f.node cur).kind && !tightAfter.contains (f.node prev).kind

/-- The span of a former child. -/
def spanOf (f : Forest) (n : NodeId) : Except Fault (Int × Int) :=
  match (f.node n).span with
  | some span => .ok span
  | none => .error .missingSpan

/-- Takes the next entry off the stack: a node waits below its children until they are settled. -/
def pristineMapFrom (f : Forest) :
    Nat → List (NodeId × Bool) → Std.HashMap NodeId Bool → Std.HashMap NodeId Bool
  | _, [], memo => memo
  | 0, _ :: _, memo => memo
  | fuel + 1, (n, settled) :: rest, memo =>
    if memo.contains n then pristineMapFrom f fuel rest memo
    else if settled then
      let flag := !(f.node n).isModified && (f.node n).children.all fun c => memo.getD c false
      pristineMapFrom f fuel rest (memo.insert n flag)
    else
      let fresh := (f.node n).children.filter fun c => !memo.contains c
      pristineMapFrom f fuel (fresh.reverse.map (·, false) ++ (n, true) :: rest) memo

/-- For every node below `n`, whether it is pristine, each settled once. -/
def pristineMap (f : Forest) (n : NodeId) : Std.HashMap NodeId Bool :=
  f.pristineMapFrom f.budget [(n, false)] ∅

end Forest

/-- The text between two offsets of a source. -/
def Source.slice (s : Source) (start stop : Int) : Except Fault String :=
  match s.slice? start stop with
  | some t => .ok t
  | none => .error .undecodable

/-- The last position of a node in a list. -/
def lastPosition? (nodes : List NodeId) (n : NodeId) : Option Nat :=
  (nodes.reverse.idxOf? n).map fun i => nodes.length - 1 - i

namespace Printer

/-- Children that follow `prev`, with separators where neighbours are set apart. -/
def joinedAfter (p : Printer) (f : Forest) : NodeId → List NodeId → List Piece
  | _, [] => []
  | prev, c :: rest =>
    (if f.spaced prev c then [.text p.separator] else []) ++ .node c :: joinedAfter p f c rest

/-- Children joined as those of a new node. -/
def joined (p : Printer) (f : Forest) : List NodeId → List Piece
  | [] => []
  | c :: rest => .node c :: joinedAfter p f c rest

/-- The source text between the former children `k` and `k + 1`. -/
def formerGap (f : Forest) (source : Source) (former : List NodeId) (k : Nat) :
    Except Fault String :=
  match former[k]?, former[k + 1]? with
  | some a, some b => do
    let left ← f.spanOf a
    let right ← f.spanOf b
    source.slice left.2 right.1
  | _, _ => .error .missingSpan

/-- The text before the child in slot `i`. While the number of slots is that of the parse, the gap
of the slot is taken; otherwise the gap after the left neighbour or before the right one, if they
are former children with such a gap. -/
def gap (p : Printer) (f : Forest) (source : Source) (former : List NodeId) (count i : Nat)
    (prev cur : NodeId) : Except Fault String :=
  if former.length = count then formerGap f source former (i - 1)
  else
    match lastPosition? former prev with
    | some k =>
      if k + 1 < former.length then formerGap f source former k
      else before
    | none => before
where
  before : Except Fault String :=
    match lastPosition? former cur with
    | some (k + 1) => formerGap f source former k
    | _ => .ok (if f.spaced prev cur then p.separator else "")

/-- Children from slot `i` on with the gaps before them. -/
def gappedAfter (p : Printer) (f : Forest) (source : Source) (former : List NodeId)
    (count : Nat) : Nat → NodeId → List NodeId → Except Fault (List Piece)
  | _, _, [] => .ok []
  | i, prev, c :: rest => do
    let text ← p.gap f source former count i prev c
    let pieces ← gappedAfter p f source former count (i + 1) c rest
    return .text text :: .node c :: pieces

/-- Children of a changed node with the gaps between them. -/
def gapped (p : Printer) (f : Forest) (source : Source) (former children : List NodeId) :
    Except Fault (List Piece) :=
  match children with
  | [] => .ok []
  | c :: rest => do
    let pieces ← p.gappedAfter f source former children.length 1 c rest
    return .node c :: pieces

/-- A changed node: its leading text, its children and the gaps between them, its trailing text. -/
def rebuilt (p : Printer) (f : Forest) (node : Node) (source : Source) (span : Int × Int) :
    Except Fault (List Piece) :=
  match node.formerChildren, node.formerChildren.getLast? with
  | first :: _, some last => do
    let head ← f.spanOf first
    let leading ← source.slice span.1 head.1
    let inner ← p.gapped f source node.formerChildren node.children
    let tail ← f.spanOf last
    let trailing ← source.slice tail.2 span.2
    return .text leading :: inner ++ [.text trailing]
  | _, _ => p.gapped f source node.formerChildren node.children

/-- The pieces of a node over a base text. -/
def expand (p : Printer) (f : Forest) (pristine : NodeId → Bool) (n : NodeId) :
    Except Fault (List Piece) :=
  let node := f.node n
  if pristine n then
    match node.source, node.span with
    | some source, some span => do return [.text (← source.slice span.1 span.2)]
    | _, _ => .error .missingSpan
  else
    match node.text with
    | some text => .ok [.text text]
    | none =>
      match node.snapshot, node.source, node.span with
      | some _, some source, some span => p.rebuilt f node source span
      | _, _, _ => .ok (p.joined f node.children)

/-- The pieces of a node without a base text. -/
def expandPlain (p : Printer) (f : Forest) (n : NodeId) : Except Fault (List Piece) :=
  let node := f.node n
  if node.isLeaf then .ok [.text (node.text.getD "")] else .ok (p.joined f node.children)

/-- Takes pieces off the stack and writes their text behind what is written already. -/
def emit (expansion : NodeId → Except Fault (List Piece)) :
    Nat → List Piece → String → Except Fault String
  | _, [], written => .ok written
  | 0, _ :: _, _ => .error .endless
  | fuel + 1, .text s :: rest, written => emit expansion fuel rest (written ++ s)
  | fuel + 1, .node n :: rest, written =>
    match expansion n with
    | .ok pieces => emit expansion fuel (pieces ++ rest) written
    | .error fault => .error fault

/-- The text of a node. The presence of a base text selects the mode; what it holds is not read, for
every parsed node knows its own source. -/
def print (p : Printer) (f : Forest) (n : NodeId) (base : Option Source) :
    Except Fault String :=
  match base with
  | none => emit (p.expandPlain f) f.budget [.node n] ""
  | some _ =>
    let memo := f.pristineMap n
    emit (p.expand f fun m => memo.getD m false) f.budget [.node n] ""

/-- A printer in words. -/
def describe (p : Printer) : String :=
  "DiffPrinter(separator=" ++ Text.quoted p.separator ++ ")"

end Printer

end Retouch
