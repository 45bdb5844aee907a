import Retouch.Script.Entry
import Retouch.Script.Print

/-!
# What values offer to be called

What happens when something is called that a value of a type offers, once the arguments are bound to
the parameters. Arguments of a wrong kind fail where they are first used.
-/

namespace Retouch.Script

variable {η : Type}

/-- The number that a value stands for; truth values count as numbers. -/
def number? : Value → Option Int
  | .scalar (.int i) _ => some i
  | .scalar (.bool b) _ => some (if b then 1 else 0)
  | _ => none

/-- The text, if the value is one. -/
def text? : Value → Option String
  | .scalar (.text s) _ => some s
  | _ => none

/-- The offset in a slice; the absent value leaves it open. -/
def offset (absent : Int) (v : Value) : Script η Int :=
  match v, number? v with
  | .scalar .null _, _ => return absent
  | _, some i => return i
  | _, none => misuse .notOffset

/-- What nodes offer. -/
def runNode (n : NodeId) (name : String) (args : List Value) : Script η Value := do
  let f ← forest
  match name, args with
  | "branch", [kind, children, fields] =>
    let places ← (← iterate children).mapM placeFor
    let fields ← match fields with
      | .scalar .null _ => pure []
      | v => do pure ((← iterate v).map text?)
    return .node (← Edit.addNode (.branch ((text? kind).getD "") places fields))
  | "leaf", [kind, text, named] =>
    return .node (← Edit.addNode { Node.leaf ((text? kind).getD "") "" (!named.datum.isNothing)
      with text := text? text })
  | "child_by_field", [field] =>
    match field with
    | .scalar .null _ => return (← ((f.node n).childByField none).mapM atPlace).getD .null
    | .scalar (.text s) _ => return (← ((f.node n).childByField (some s)).mapM atPlace).getD .null
    | _ => return .null
  | "is_modified", _ => return .bool (f.node n).isModified
  | "is_pristine", _ => return .bool (f.isPristine n)
  | "mark_original", _ =>
    Edit.modifyNode n Node.marked
    return .null
  | "walk", _ =>
    requireTree n "children"
    return .sequence .generator 0 ((f.walk n).map Value.node)
  | _, _ => throw .noTree

/-- What paths offer. -/
def runPath (p : PathId) (name : String) (args : List Value) : Script η Value := do
  let d ← document
  let here := (d.path p).node
  let paths (found : List PathId) : Value := .list (found.map Value.path)
  match name, args with
  | "get", [index] =>
    requireNodes [here] "children"
    match number? index with
    | some i => return .path (← Edit.child p i)
    | none => misuse (.notOrdered index.typeName "int")
  | "child_paths", _ =>
    requireNodes [here] "children"
    return paths (← Edit.childPaths p)
  | "walk", _ =>
    requireTree here "children"
    return .sequence .generator 0 ((← Edit.walk p).map Value.path)
  | "ancestors", _ => return .sequence .generator 0 ((d.ancestors p).map Value.path)
  | "root", _ => return .path (d.root p)
  | "same_element", [other] =>
    return .bool ((← atPlace here).isSame (← member other "node"))
  | "replace", nodes =>
    return paths (← Edit.replace p (← nodes.mapM placeFor))
  | "prune", _ => return .ofOption .path (← Edit.prune p)
  | "__repr__", _ =>
    requireNodes [here] "type"
    return .text (d.describe p)
  | _, _ => throw .noTree

/-- The paths at a position of a collection. -/
def positionIn (index : Value) : Script η Int :=
  match number? index with
  | some i => return i
  | none => misuse (.notPosition index.typeName)

/-- The collection that a collection's parts and further items make. -/
def rebuilt (c : CollectionId) (items : List Value) (kind : Value) : Script η Value := do
  let h ← held c
  addHeld (← build (items.map Value.item) h.methods h.printer (.collection c) kind.datum)

/-- Fails unless there is nothing to call the value on. -/
def requireCallable (h : Held) (v : Value) : Script η Unit :=
  if h.value.paths.isEmpty then return () else misuse (.notCallable v.typeName)

/-- What collections offer. -/
def runCollection (c : CollectionId) (name : String) (args : List Value) : Script η Value := do
  let d ← document
  let h ← held c
  let places := h.value.paths.map fun p => (d.path p).node
  match name, args with
  | "size", _ | "__len__", _ => return .int h.value.paths.length
  | "paths", _ => return .list (h.value.paths.map Value.path)
  | "nodes", _ => return .list (← atPlaces places)
  | "__iter__", _ => return .other "tuple_iterator"
  | "__repr__", _ => return .text h.value.describe
  | "get_types", _ =>
    requireNodes places "type"
    return .sequence .frozen 0 ((h.value.types d).map Value.text)
  | "is_of_type", [kind] =>
    requireNodes places "type"
    return .bool (match text? kind with
      | some s => h.value.isOfType d s
      | none => false)
  | "_infer_kind", [kind] =>
    return .ofDatum (← ofExcept (Collection.kindFor (Collection.kinds d h.value.paths) kind.datum))
  | "at", [index] => keep c (← ofExcept (h.value.single d (← positionIn index)))
  | "__getitem__", [index] => return .path (← ofExcept (h.value.pathAt (← positionIn index)))
  | "derive", [items, kind] => rebuilt c (← iterate items) kind
  | "filter", [test] =>
    requireCallable h test
    rebuilt c [] .null
  | "map", [f, kind] =>
    requireCallable h f
    rebuilt c [] kind
  | "for_each", [f] =>
    requireCallable h f
    return .collection c
  | "to_source", _ => return .text (← toSource c)
  | "__getattr__", [asked] =>
    match text? asked with
    | some s =>
      let _ ← installed c s
      return .applied c s
    | none => throw (.noAttribute asked.typeName "startswith")
  | "__class__", [items, methods, printer, parent, kind] =>
    addHeld (← build ((← iterate items).map Value.item) methods printer parent kind.datum)
  | "__init__", [items, methods, printer, parent, kind] =>
    let made ← build ((← iterate items).map Value.item) methods printer parent kind.datum
    change fun s => { s with collections := s.collections.modify c fun _ => made }
    return .null
  | _, _ => throw .noTree

/-- Methods given as a value, each name with a handler that is none. -/
def givenMethods (v : Value) : Script η (List (String × η)) := do
  let names ← iterate v
  for name in names do
    if (text? name).isNone then throw (.noAttribute name.typeName "startswith")
  match v with
  | .mapping _ entries =>
    let inert := (← session).inert
    return entries.filterMap fun entry =>
      match entry.1 with
      | .text s => some (s, inert)
      | _ => none
  | v =>
    let _ ← member v "items"
    throw .noTree

/-- The kind that methods are installed for. -/
def kindOf (v : Value) : Script η (Option String) :=
  match v with
  | .scalar .null _ => return none
  | .scalar (.text s) _ => return some s
  | v =>
    match v.unhashable? with
    | some name => misuse (.unhashable name)
    | none => throw .noTree

/-- Fails for a value that cannot be a key. -/
def requireKey (v : Value) : Script η Unit :=
  match v.unhashable? with
  | some name => misuse (.unhashable name)
  | none => return ()

/-- What method registries offer. -/
def runMethods (r : MethodsId) (name : String) (args : List Value) : Script η Value := do
  let registry ← work (Work.methods r)
  match name, args with
  | "register", [given, kind] =>
    let given ← givenMethods given
    work (Work.installMethods r given (← kindOf kind))
    return .null
  | "lookup", [asked, kind] =>
    requireKey kind
    requireKey asked
    let found := (text? asked).bind fun s => registry.visible s kind.datum
    return .ofOption (fun m => .method r m.name m.kind) found
  | "names", [kind] =>
    requireKey kind
    return .list ((registry.visibleNames kind.datum).map Value.text)
  | "reset", _ =>
    work (Work.resetMethods r)
    return .null
  | _, _ => throw .noTree

/-- What plugin registries offer. -/
def runPlugins (r : PluginsId) (name : String) (args : List Value) : Script η Value := do
  match name, args with
  | "register", [plugin, entry] => return .bool (← registerPlugin r plugin entry)
  | "is_registered", [plugin] => return .bool (← isRegistered r plugin)
  | "plugins", _ => return .list (← (← work (Work.plugins r)).mapM pluginAt)
  | "__len__", _ => return .int (← work (Work.plugins r)).length
  | "reset", _ =>
    work (Plugin.reset r)
    return .null
  | _, _ => throw .noTree

/-- What entry points offer. -/
def runEntry (e : EntryId) (name : String) (args : List Value) : Script η Value := do
  match name, args with
  | "use", [plugin] => use e plugin
  | "register_methods", [given, kind] =>
    match (← parts e).methods with
    | .methods r => runMethods r "register" [given, kind]
    | v =>
      let _ ← member v "register"
      throw .noTree
  | "with_parser", [parser] => addEntry { ← parts e with parser := ← parserOr parser }
  | "__call__", [source] => callEntry e source
  | "__repr__", _ => return .text (← describe (.entry e))
  | _, _ => throw .noTree
where
  parserOr (v : Value) : Script η Value := do
    match v with
    | .scalar .null _ => return .parser (← work (Work.addParser "javascript" false))
    | v => return v

/-- Parses a value. -/
def parseWith (p : ParserId) (source : Value) : Script η Value := do
  match source with
  | .scalar (.text s) _ => return .node (← work (Work.parse p s))
  | v =>
    work (Work.loadGrammar p)
    let _ ← member v "encode"
    throw .noTree

/-- What a value offers under a name, called with an argument for every parameter. -/
def runMember (v : Value) (name : String) (args : List Value) : Script η Value := do
  match v, name, args with
  | .node n, _, _ => runNode n name args
  | .path p, _, _ => runPath p name args
  | .source s, "slice", [start, stop] =>
    return .text (← ofExcept (s.slice (← offset 0 start) (← offset s.size stop)))
  | .collection c, _, _ => runCollection c name args
  | .entry e, _, _ => runEntry e name args
  | .parser p, "parse", [source] => parseWith p source
  | .printer _ p, "print", [node, base] => return .text (← printWith p node base)
  | .methods r, _, _ => runMethods r name args
  | .plugins r, _, _ => runPlugins r name args
  | _, _, _ => throw .noTree

end Retouch.Script
