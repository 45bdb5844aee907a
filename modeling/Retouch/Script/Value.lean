import Retouch.EntryPoint

/-!
# Values of a script

A script holds values of every kind there is: plain data, nodes, paths, collections, entry points
and what those are made of. Equal values may be two: things with a place in the session are told
apart by their identities, and texts, sequences and mappings by tags.
-/

namespace Retouch

/-- The identity of a collection that a script holds. -/
abbrev CollectionId := Nat

/-- The identity of an entry point that a script holds. -/
abbrev EntryId := Nat

/-- How the items of a sequence are kept. A generator only hands them out one by one. -/
inductive Form where
  | list
  | tuple
  | frozen
  | generator
deriving DecidableEq, Repr, Inhabited

/-- The name of the type of a form's sequences. -/
def Form.typeName : Form → String
  | .list => "list"
  | .tuple => "tuple"
  | .frozen => "frozenset"
  | .generator => "generator"

/-- A value that a script holds. -/
inductive Value where
  | scalar (s : Scalar) (tag : Nat)
  | sequence (form : Form) (tag : Nat) (items : List Value)
  | mapping (tag : Nat) (entries : List (Scalar × Value))
  | node (n : NodeId)
  | path (p : PathId)
  | source (s : Source)
  | collection (c : CollectionId)
  | entry (e : EntryId)
  | parser (p : ParserId)
  | printer (tag : Nat) (p : Printer)
  | methods (r : MethodsId)
  | plugins (r : PluginsId)
  | plugin (p : PluginId)
  /-- An installed method as its registry knows it. -/
  | method (r : MethodsId) (name : String) (kind : Option String)
  | language (l : Language)
  /-- What a value offers to be called under a name. -/
  | bound (receiver : Value) (name : String)
  /-- A method of a registry, applied to the collection it was asked of. -/
  | applied (c : CollectionId) (name : String)
  /-- A value of which nothing but the name of its type is known. -/
  | other (typeName : String)

namespace Value

/-- The absent value. -/
@[match_pattern] abbrev null : Value := .scalar .null 0

/-- A truth value. -/
abbrev bool (b : Bool) : Value := .scalar (.bool b) 0

/-- A whole number. -/
abbrev int (n : Int) : Value := .scalar (.int n) 0

/-- A text that nothing else refers to. -/
abbrev text (s : String) : Value := .scalar (.text s) 0

instance : Inhabited Value := ⟨null⟩

/-- A list that nothing else refers to. -/
abbrev list (items : List Value) : Value := .sequence .list 0 items

/-- A tuple that nothing else refers to. -/
abbrev tuple (items : List Value) : Value := .sequence .tuple 0 items

/-- A value that may be absent. -/
def ofOption {α : Type} (f : α → Value) (a : Option α) : Value := (a.map f).getD null

mutual

/-- Plain data as a value. -/
def ofDatum : Datum → Value
  | .scalar s => .scalar s 0
  | .list items => .sequence .list 0 (ofData items)
  | .mapping entries => .mapping 0 (ofEntries entries)

/-- The items of a list as values. -/
def ofData : List Datum → List Value
  | [] => []
  | d :: rest => ofDatum d :: ofData rest

/-- The entries of a mapping as values. -/
def ofEntries : List (Scalar × Datum) → List (Scalar × Value)
  | [] => []
  | (k, d) :: rest => (k, ofDatum d) :: ofEntries rest

end

mutual

/-- A value as plain data; what is none is left out. -/
def datum : Value → Datum
  | .scalar s _ => .scalar s
  | .sequence _ _ items => .list (data items)
  | .mapping _ entries => .mapping (dataEntries entries)
  | _ => .null

/-- The items of a sequence as plain data. -/
def data : List Value → List Datum
  | [] => []
  | v :: rest => datum v :: data rest

/-- The entries of a mapping as plain data. -/
def dataEntries : List (Scalar × Value) → List (Scalar × Datum)
  | [] => []
  | (k, v) :: rest => (k, datum v) :: dataEntries rest

end

/-- The name of the type of what is offered to be called under a name. -/
def boundTypeName (name : String) : String :=
  if name = "__class__" then "type"
  else if ["__delattr__", "__eq__", "__ge__", "__getattribute__", "__gt__", "__hash__", "__le__",
    "__lt__", "__ne__", "__setattr__", "__str__"].contains name then "method-wrapper"
  else if ["__dir__", "__format__", "__getstate__", "__init_subclass__", "__new__", "__reduce__",
    "__reduce_ex__", "__sizeof__", "__subclasshook__"].contains name then
    "builtin_function_or_method"
  else "method"

/-- The name of a value's type. -/
def typeName : Value → String
  | .scalar s _ => (Datum.scalar s).typeName
  | .sequence form _ _ => form.typeName
  | .mapping _ _ => "dict"
  | .node _ => "Node"
  | .path _ => "NodePath"
  | .source _ => "SourceText"
  | .collection _ => "Collection"
  | .entry _ => "Core"
  | .parser _ => "TreeSitterParser"
  | .printer _ _ => "DiffPrinter"
  | .methods _ => "MethodRegistry"
  | .plugins _ => "PluginRegistry"
  | .plugin _ => "function"
  | .method _ _ _ => "MethodSpec"
  | .language _ => "LanguageSpec"
  | .bound _ name => boundTypeName name
  | .applied _ _ => "functools.partial"
  | .other name => name

/-- The identity of a value that has a place in the session, by type. -/
def identity? : Value → Option (String × Nat)
  | .node n => some ("Node", n)
  | .path p => some ("NodePath", p)
  | .source s => some ("SourceText", s.stamp)
  | .collection c => some ("Collection", c)
  | .entry e => some ("Core", e)
  | .parser p => some ("TreeSitterParser", p)
  | .printer tag _ => some ("DiffPrinter", tag)
  | .methods r => some ("MethodRegistry", r)
  | .plugins r => some ("PluginRegistry", r)
  | .plugin p => some ("function", p)
  | _ => none

/-- Texts of no more than one character of the first 256 are one value wherever they come from. -/
def isShort (s : String) : Bool :=
  s.length ≤ 1 && s.toList.all fun c => c.toNat < 256

/-- Whether two values are one. -/
def isSame : Value → Value → Bool
  | .scalar (.text a) s, .scalar (.text b) t => a == b && (s == t || isShort a)
  | .scalar a _, .scalar b _ => decide (a = b)
  | .sequence .tuple _ [], .sequence .tuple _ [] => true
  | .sequence f s _, .sequence g t _ => f == g && s == t
  | .mapping s _, .mapping t _ => s == t
  | .method r a k, .method q b l => r == q && a == b && k == l
  | .language a, .language b => decide (a = b)
  | a, b =>
    match a.identity?, b.identity? with
    | some x, some y => x == y
    | _, _ => false

/-- A value with a tag of its own, if it is told apart by one. -/
def tagged (tag : Nat) : Value → Value
  | .scalar (.text s) 0 => .scalar (.text s) tag
  | .sequence form 0 items => .sequence form tag items
  | .mapping 0 entries => .mapping tag entries
  | v => v

mutual

/-- The type of the value that keeps a value from being a key, if there is one. -/
def unhashable? : Value → Option String
  | .sequence .list _ _ => some "list"
  | .sequence .tuple _ items => unhashableIn? items
  | .mapping _ _ => some "dict"
  | .printer _ _ => some "DiffPrinter"
  | .parser _ => some "TreeSitterParser"
  | .other "set" => some "set"
  | _ => none

/-- The first such type among values. -/
def unhashableIn? : List Value → Option String
  | [] => none
  | v :: rest => (unhashable? v).or (unhashableIn? rest)

end

/-- A value as an item of an input. -/
def item : Value → Item
  | .scalar (.text s) _ => .text s
  | .node n => .node n
  | .path p => .path p
  | v => .other v.typeName

/-- A value as an input. -/
def input : Value → Input
  | .sequence .list _ items => .sequence "list" (items.map item)
  | .sequence .tuple _ items => .sequence "tuple" (items.map item)
  | v => .item v.item

/-- The source, if the value is one. -/
def source? : Value → Option Source
  | .source s => some s
  | _ => none

end Value

end Retouch
