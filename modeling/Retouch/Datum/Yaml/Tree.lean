import Retouch.Assoc
import Retouch.Datum.Yaml.Token

/-!
# The tree of a document

Tokens as a tree of labelled nodes. A node may be named by an anchor and used again by its name;
where a collection uses itself, an empty one stands for it. A text that is left out is the empty
one, which stands for the absent value. A file holds one document at most.
-/

namespace Retouch.Yaml

/-- A node of a document. -/
inductive Tree where
  | scalar (label : Label) (text : String)
  | list (label : Label) (items : List Tree)
  | mapping (label : Label) (entries : List (Tree × Tree))
deriving Inhabited

/-- What is left to be read, and the names given so far. -/
structure Source where
  tokens : List Token
  anchors : List (String × Tree) := []
  /-- Handles of tags, and what they stand for. -/
  handles : List (String × String) := []

/-- Reading a tree, which may fail. -/
abbrev Build := StateT Source (Except Trouble)

namespace Build

/-- The document is not well formed. -/
def malformed {α : Type} : Build α :=
  throw .malformed

/-- The next token. -/
def look : Build (Option Token) := do
  match (← get).tokens.head? with
  | some (.broken t) => throw t
  | t => return t

/-- Passes a token. -/
def pass : Build Unit :=
  modify fun s => { s with tokens := s.tokens.drop 1 }

/-- The node for a text that is left out. -/
def empty : Tree :=
  .scalar .null ""

/-- The tag a handle and a suffix make. -/
def tagOf (handle : Option String) (suffix : String) : Build String := do
  match handle with
  | none => return suffix
  | some h =>
    match Assoc.get? (← get).handles h with
    | some stem => return stem ++ suffix
    | none => malformed

/-- An anchor in front. -/
def anchor? : Build (Option String) := do
  match ← look with
  | some (.anchor name) =>
    pass
    return some name
  | _ => return none

/-- A tag in front. -/
def tag? : Build (Option String) := do
  match ← look with
  | some (.tag handle suffix) =>
    pass
    return some (← tagOf handle suffix)
  | _ => return none

/-- An anchor and a tag in front, in either order. -/
def properties : Build (Option String × Option String) := do
  let name ← anchor?
  let tag ← tag?
  let name ← if name.isNone then anchor? else pure name
  return (name, tag)

/-- The label of a text. The tag of one exclamation mark asks for the label of the bare text. -/
def textLabel (tag : Option String) (isPlain : Bool) (text : String) : Label :=
  match tag with
  | none => if isPlain then .ofPlain text else .text
  | some "!" => .ofPlain text
  | some t => .ofTag t

/-- The label of a collection, which has one by nature. -/
def natureLabel (tag : Option String) (nature : Label) : Label :=
  match tag with
  | none | some "!" => nature
  | some t => .ofTag t

/-- Gives a node a name, which must be new. -/
def name (anchor : Option String) (t : Tree) : Build Unit := do
  match anchor with
  | none => pure ()
  | some a =>
    if Assoc.contains (← get).anchors a then malformed
    modify fun s => { s with anchors := Assoc.insert s.anchors a t }

/-- Changes what a name stands for once its node is complete. -/
def rename (anchor : Option String) (t : Tree) : Build Unit :=
  match anchor with
  | none => pure ()
  | some a => modify fun s => { s with anchors := Assoc.insert s.anchors a t }

/-- A collection: named first, so that it can be used inside itself, then read. -/
def collection (anchor : Option String) (hollow : Tree) (read : Build Tree) : Build Tree := do
  name anchor hollow
  pass
  let t ← read
  rename anchor t
  return t

mutual

/-- A node. Blocks are allowed outside brackets, and items at the indent of a key as its value. -/
def node (inBlock indentless : Bool) : Nat → Build Tree
  | 0 => malformed
  | fuel + 1 => do
    match ← look with
    | some (.alias a) =>
      pass
      match Assoc.get? (← get).anchors a with
      | some t => return t
      | none => malformed
    | _ =>
      let (anchor, tag) ← properties
      let listLabel := natureLabel tag .list
      let mappingLabel := natureLabel tag .mapping
      match ← look with
      | some (.scalar text isPlain) =>
        pass
        let t := .scalar (textLabel tag isPlain text) text
        name anchor t
        return t
      | some .flowList =>
        collection anchor (.list listLabel []) (return .list listLabel (← flowItems true fuel))
      | some .flowMapping =>
        collection anchor (.mapping mappingLabel [])
          (return .mapping mappingLabel (← flowEntries true fuel))
      | some .blockList =>
        if !inBlock then malformed
        collection anchor (.list listLabel []) (return .list listLabel (← blockItems fuel))
      | some .blockMapping =>
        if !inBlock then malformed
        collection anchor (.mapping mappingLabel [])
          (return .mapping mappingLabel (← blockEntries fuel))
      | other =>
        if indentless && other matches some .item then
          name anchor (.list listLabel [])
          let t := .list listLabel (← indentlessItems fuel)
          rename anchor t
          return t
        else if anchor.isSome || tag.isSome then
          let t := .scalar (textLabel tag true "") ""
          name anchor t
          return t
        else malformed

/-- The items of a block, up to its end. -/
def blockItems : Nat → Build (List Tree)
  | 0 => malformed
  | fuel + 1 => do
    match ← look with
    | some .item =>
      pass
      let t ← match ← look with
        | some .item | some .blockEnd => pure empty
        | _ => node true false fuel
      return t :: (← blockItems fuel)
    | some .blockEnd =>
      pass
      return []
    | _ => malformed

/-- Items at the indent of their key. -/
def indentlessItems : Nat → Build (List Tree)
  | 0 => malformed
  | fuel + 1 => do
    match ← look with
    | some .item =>
      pass
      let t ← match ← look with
        | some .item | some .key | some .value | some .blockEnd => pure empty
        | _ => node true false fuel
      return t :: (← indentlessItems fuel)
    | _ => return []

/-- The entries of a block, up to its end. -/
def blockEntries : Nat → Build (List (Tree × Tree))
  | 0 => malformed
  | fuel + 1 => do
    match ← look with
    | some .key =>
      pass
      let k ← blockMember fuel
      let v ← match ← look with
        | some .value => do
          pass
          blockMember fuel
        | _ => pure empty
      return (k, v) :: (← blockEntries fuel)
    | some .blockEnd =>
      pass
      return []
    | _ => malformed

/-- A key or a value of a block, which may be left out. -/
def blockMember : Nat → Build Tree
  | 0 => malformed
  | fuel + 1 => do
    match ← look with
    | some .key | some .value | some .blockEnd => return empty
    | _ => node true true fuel

/-- The items between brackets, up to the closing one. Behind the first, a comma stands in front of
each. -/
def flowItems (first : Bool) : Nat → Build (List Tree)
  | 0 => malformed
  | fuel + 1 => do
    match ← look with
    | some .flowListEnd =>
      pass
      return []
    | t =>
      if !first then
        if t matches some .comma then pass else malformed
      match ← look with
      | some .flowListEnd =>
        pass
        return []
      | some .key =>
        pass
        let entry ← flowEntry fuel
        return .mapping .mapping [entry] :: (← flowItems false fuel)
      | _ =>
        let t ← node false false fuel
        return t :: (← flowItems false fuel)

/-- The entries between braces, up to the closing one. A key without a colon has no value. -/
def flowEntries (first : Bool) : Nat → Build (List (Tree × Tree))
  | 0 => malformed
  | fuel + 1 => do
    match ← look with
    | some .flowMappingEnd =>
      pass
      return []
    | t =>
      if !first then
        if t matches some .comma then pass else malformed
      match ← look with
      | some .flowMappingEnd =>
        pass
        return []
      | some .key =>
        pass
        let entry ← flowEntry fuel
        return entry :: (← flowEntries false fuel)
      | _ =>
        let k ← node false false fuel
        return (k, empty) :: (← flowEntries false fuel)

/-- A key and its value inside brackets; both may be left out. -/
def flowEntry : Nat → Build (Tree × Tree)
  | 0 => malformed
  | fuel + 1 => do
    let k ← match ← look with
      | some .value | some .comma | some .flowListEnd | some .flowMappingEnd => pure empty
      | _ => node false false fuel
    let v ← match ← look with
      | some .value => do
        pass
        match ← look with
        | some .comma | some .flowListEnd | some .flowMappingEnd => pure empty
        | _ => node false false fuel
      | _ => pure empty
    return (k, v)

end

/-- Directives in front of a document: the version at most once, and every handle at most once. -/
def directives : Nat → Bool → Build Unit
  | 0, _ => malformed
  | fuel + 1, versioned => do
    match ← look with
    | some (.version major) =>
      if versioned || major != 1 then malformed
      pass
      directives fuel true
    | some (.handle name stem) =>
      if Assoc.contains (← get).handles name then malformed
      modify fun s => { s with handles := (name, stem) :: s.handles }
      pass
      directives fuel versioned
    | some .remark =>
      pass
      directives fuel versioned
    | _ => pure ()

/-- The handles that need not be declared. -/
def knownHandles : List (String × String) :=
  [("!", "!"), ("!!", "tag:yaml.org,2002:")]

/-- A document behind its mark. -/
def marked (fuel : Nat) : Build Tree := do
  directives fuel false
  modify fun s => { s with handles := s.handles ++ knownHandles }
  match ← look with
  | some .documentStart =>
    pass
    match ← look with
    | none | some (.version _) | some (.handle _ _) | some .remark | some .documentStart
    | some .documentEnd => return empty
    | _ => node true false fuel
  | _ => malformed

/-- Nothing but marks may follow a document. -/
def finish : Nat → Build Unit
  | 0 => malformed
  | fuel + 1 => do
    match ← look with
    | none => pure ()
    | some .documentEnd =>
      pass
      finish fuel
    | _ => malformed

/-- The document of a file, if there is one. -/
def document (fuel : Nat) : Build (Option Tree) := do
  match ← look with
  | none => return none
  | some (.version _) | some (.handle _ _) | some .remark | some .documentStart =>
    let t ← marked fuel
    finish fuel
    return some t
  | _ =>
    modify fun s => { s with handles := knownHandles }
    let t ← node true false fuel
    finish fuel
    return some t

end Build

/-- How many collections are opened and not closed behind a token. -/
def depthAfter (depth : Nat) : Token → Nat
  | .blockList | .blockMapping | .flowList | .flowMapping => depth + 1
  | .blockEnd | .flowListEnd | .flowMappingEnd => depth - 1
  | _ => depth

/-- How deep collections lie inside each other. -/
def depthOf (ts : List Token) : Nat :=
  (ts.foldl (fun (depth, most) t =>
    let depth := depthAfter depth t
    (depth, max most depth)) (0, 0)).2

/-- So deep may collections lie inside each other. -/
def mostDepth : Nat := 490

/-- The tree of a document, if there is a document. Every token is passed by a few steps. -/
def tree (text : String) : Except Trouble (Option Tree) :=
  let ts := tokens text
  if mostDepth < depthOf ts then .error (.fault .tooDeep)
  else match (Build.document (4 * ts.length + 4)).run { tokens := ts } with
  | .ok (t, _) => .ok t
  | .error e => .error e

end Retouch.Yaml
