import Retouch.Script.Parameters
import Retouch.Script.Session

/-!
# Attributes

What a value has under a name. What is worked out from a value comes before what the value keeps,
that before what values of its type offer to be called, and what is installed on collections comes
last. Some values can be given further attributes, some keep those they have, some keep none.
-/

namespace Retouch.Script

variable {η : Type}

/-- The values of nodes' places. -/
def atPlaces (places : List NodeId) : Script η (List Value) :=
  places.mapM atPlace

/-- An entry of what a value keeps. -/
def entryOf (name : String) (v : Value) : Scalar × Value :=
  (.text name, v)

/-- The methods of a table as a mapping. -/
def methodTable (r : MethodsId) (table : List (String × Method η)) : Value :=
  .mapping 0 (table.map fun entry => entryOf entry.1 (.method r entry.1 entry.2.kind))

/-- What a value worked out from its parts has under a name. -/
def derivedOf (v : Value) (name : String) : Script η (Option Value) := do
  match v with
  | .node n =>
    let x := (← forest).node n
    match name with
    | "is_leaf" => return some (.bool x.isLeaf)
    | "is_parsed" => return some (.bool x.isParsed)
    | "original_children" => return some (.tuple (← atPlaces x.formerChildren))
    | _ => return none
  | .path p =>
    let d ← document
    match name with
    | "value" => return some (← atPlace (d.path p).node)
    | "is_root" => return some (.bool (d.path p).parent.isNone)
    | "field" => return some (.ofOption .text (← ofExcept (d.fieldAt p)))
    | _ => return none
  | .collection c =>
    match name with
    | "kind" => return some (.ofDatum (← held c).value.kind)
    | "parent" => return some (← held c).parent
    | _ => return none
  | _ => return none

/-- What a value of a kind keeps from the start, in order. -/
def kept (v : Value) : Script η (List (String × Value)) := do
  match v with
  | .node n =>
    let x := (← forest).node n
    let former ← atPlaces x.formerChildren
    return [("type", .text x.kind), ("text", .ofOption .text x.text),
      ("children", .list (← atPlaces x.children)),
      ("fields", .list (x.fields.map (.ofOption .text))), ("named", .bool x.named),
      ("span", .ofOption (fun (a, b) => .tuple [.int a, .int b]) x.span),
      ("source", .ofOption .source x.source),
      ("_original_text", .ofOption .text (x.snapshot.bind Snapshot.text)),
      ("_original_children", if x.snapshot.isSome then .tuple former else .null)]
  | .path p =>
    let x := (← document).path p
    return [("node", ← atPlace x.node), ("parent", .ofOption .path x.parent),
      ("name", .ofOption .int x.slot),
      ("_children", .mapping 0 (x.cache.map fun entry => (.int entry.1, .path entry.2)))]
  | .source s => return [("text", .text s.text), ("data", .other "bytes")]
  | .collection c =>
    let h ← held c
    return [("_paths", .tuple (h.value.paths.map Value.path)), ("_methods", h.methods),
      ("_printer", h.printer), ("_parent", h.parent), ("_kind", .ofDatum h.value.kind)]
  | .entry e =>
    let p ← parts e
    return [("parser", p.parser), ("printer", p.printer), ("plugins", p.plugins),
      ("methods", p.methods)]
  | .parser p =>
    let parser ← work (Work.parser p)
    return [("language", .text parser.language), ("tolerant", .bool parser.tolerant),
      ("_parser", .other "Parser"), ("_languages", .mapping 0 [])]
  | .printer _ p => return [("separator", .text p.separator)]
  | .methods r =>
    let registry ← work (Work.methods r)
    return [("_generic", methodTable r registry.general),
      ("_typed", .mapping 0 (registry.typed.map fun entry =>
        entryOf entry.1 (methodTable r entry.2)))]
  | .plugins r =>
    let started ← (← work (Work.plugins r)).mapM pluginAt
    return [("_plugins", .mapping 0 (started.zipIdx.map fun (v, i) => (.int i, v)))]
  | .method _ name kind =>
    return [("name", .text name), ("handler", .other "function"),
      ("node_type", .ofOption .text kind)]
  | .language l =>
    return [("name", .text l.name), ("grammar_package", .text l.grammarPackage),
      ("grammar_module", .text l.grammarModule), ("language_func", .text l.entry)]
  | _ => return []

/-- What a value keeps, with the attributes put on it last. -/
def state (v : Value) : Script η (List (String × Value)) := do
  return Assoc.ofList ((← kept v) ++ (← extras v))

/-- What a value tells about itself. -/
def about (v : Value) (name : String) : Script η (Option Value) := do
  if !Names.has v.typeName name then return none
  match name with
  | "__dict__" => return some (.mapping 0 ((← state v).map fun entry => entryOf entry.1 entry.2))
  | "__doc__" | "__module__" | "__name__" | "__qualname__" => return some (.other "str")
  | "__weakref__" => return some .null
  | "__annotations__" | "__dataclass_fields__" => return some (.other "dict")
  | "__match_args__" | "__slots__" => return some (.other "tuple")
  | "__hash__" => return if v.unhashable?.isSome then some .null else none
  | _ => return none

/-- The method installed on a collection under a name. -/
def installed (c : CollectionId) (name : String) : Script η (Method η) := do
  if MethodRegistry.isHidden name then throw (.hiddenName name)
  let h ← held c
  match h.methods with
  | .methods _ =>
    let found ← work (Work.method h.value name)
    if (← session).isInert found.handler then misuse .notApplicable
    return found
  | v => throw (.noAttribute v.typeName "lookup")

/-- What a value has by itself under a name. -/
def ownAttribute? (v : Value) (name : String) : Script η (Option Value) := do
  if let some found ← derivedOf v name then return some found
  if let some found := Assoc.get? (← state v) name then return some found
  if let some found ← about v name then return some found
  return if Names.has v.typeName name then some (.bound v name) else none

/-- What a value has under a name. -/
def member (v : Value) (name : String) : Script η Value := do
  if let some found ← ownAttribute? v name then return found
  match v with
  | .collection c =>
    let _ ← installed c name
    return .applied c name
  | v => throw (.noAttribute v.typeName name)

/-- Whether a value has something under a name. -/
def hasAttribute (v : Value) (name : String) : Script η Bool := do
  match ← attempt (member v name) with
  | .ok _ => return true
  | .error f => if f.isLack then return false else throw f

/-! ## Changing attributes -/

/-- What is worked out from a value of a type. -/
def isDerived (typeName name : String) : Bool :=
  match typeName with
  | "Node" => ["is_leaf", "is_parsed", "original_children"].contains name
  | "NodePath" => ["value", "is_root", "field"].contains name
  | "Collection" => ["kind", "parent"].contains name
  | _ => false

/-- Whether values of a type cannot be changed. -/
def isFrozen (typeName : String) : Bool :=
  ["SourceText", "MethodSpec", "LanguageSpec"].contains typeName

/-- Whether values of a type take attributes of any name. -/
def isOpen (typeName : String) : Bool :=
  ["Node", "Collection", "Core", "TreeSitterParser", "DiffPrinter", "MethodRegistry",
    "PluginRegistry", "function", "functools.partial"].contains typeName

/-- A node with something else under a name, if nodes have something there. -/
def changedNode (x : Node) (name : String) (given : Value) : Option Node :=
  match name, given with
  | "type", .scalar (.text s) _ => some { x with kind := s }
  | "text", .scalar (.text s) _ => some { x with text := some s }
  | "text", _ => some { x with text := none }
  | "named", v => some { x with named := !v.datum.isNothing }
  | "span", .sequence _ _ [.scalar (.int a) _, .scalar (.int b) _] =>
    some { x with span := some (a, b) }
  | "span", _ => some { x with span := none }
  | "source", v => some { x with source := v.source? }
  | _, _ => none

/-- Puts something under a name of a value. -/
def assign (v : Value) (name : String) (given : Value) : Script η Unit := do
  let kind := v.typeName
  let extend := setExtras v fun now => Assoc.insert now name given
  if isFrozen kind then throw (.frozen name)
  if isDerived kind name then throw (.noSetter kind name)
  match v, name, given with
  | .node n, _, _ =>
    match changedNode ((← forest).node n) name given with
    | some x => Edit.modifyNode n fun _ => x
    | none => extend
  | .path p, "name", given =>
    let slot := match given with
      | .scalar (.int i) _ => some i
      | _ => none
    Edit.modifyPath p fun x => { x with slot := slot }
  | .collection c, _, _ =>
    let set (f : Held → Held) : Script η Unit :=
      change fun s => { s with collections := s.collections.modify c f }
    match name with
    | "_kind" => set fun h => { h with value := { h.value with kind := given.datum } }
    | "_paths" => if given.datum.isNothing then
        set fun h => { h with value := { h.value with paths := [] } }
    | "_methods" => set fun h => { h with methods := given }
    | "_printer" => set fun h => { h with printer := given }
    | "_parent" => set fun h => { h with parent := given }
    | _ => extend
  | .entry e, _, _ =>
    let set (f : Parts → Parts) : Script η Unit :=
      change fun s => { s with entries := s.entries.modify e f }
    match name with
    | "parser" => set fun p => { p with parser := given }
    | "printer" => set fun p => { p with printer := given }
    | "plugins" => set fun p => { p with plugins := given }
    | "methods" => set fun p => { p with methods := given }
    | _ => extend
  | v, _, _ => if isOpen kind then extend else throw (.noAttribute v.typeName name)

/-- Takes away what was put under a name of a value. -/
def erase (v : Value) (name : String) : Script η Unit := do
  let kind := v.typeName
  if isFrozen kind then throw (.frozen name)
  if isDerived kind name then throw (.noDeleter kind name)
  if !Assoc.contains (← state v) name then throw (.noAttribute kind name)
  setExtras v fun now => now.filter fun entry => entry.1 != name

end Retouch.Script
