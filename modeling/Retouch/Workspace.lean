import Retouch.Collection
import Retouch.Language
import Retouch.Logging.Journal
import Retouch.Methods

/-!
# Workspaces

Everything that changes while the tool is in use: the document, the journal, the languages, and the
parsers and registries that entry points share. Work that writes to the journal is done here:
parsing, normalizing input, installing methods and printing collections.
-/

namespace Retouch

/-- The identity of a parser. -/
abbrev ParserId := Nat

/-- The identity of a plugin. -/
abbrev PluginId := Nat

/-- The identity of a plugin registry. -/
abbrev PluginsId := Nat

/-- A parser of one language. A loaded grammar is kept, whatever becomes of the table. -/
structure Parser where
  language : String
  tolerant : Bool
  loaded : Bool
deriving DecidableEq, Repr, Inhabited

/-- A parser in words. -/
def Parser.describe (p : Parser) : String :=
  "TreeSitterParser(language=" ++ Text.quoted p.language ++ ", tolerant=" ++
    (if p.tolerant then "True" else "False") ++ ")"

/-- What is shared and changes. A plugin registry lists the plugins started, oldest first; the trail
holds the notes that plugins left, where an absent text stands for the entry point itself. -/
structure Workspace (η : Type) where
  document : Document
  journal : Journal
  grammars : Grammars
  parsers : Array Parser
  methods : Array (MethodRegistry η)
  plugins : Array (List PluginId)
  sources : Nat
  trail : Array (Option String)

/-- Work may fail; what was changed before the failure stays changed. -/
abbrev Work (η : Type) := ExceptT Fault (StateM (Workspace η))

namespace Work

variable {η α : Type}

/-- Does an edit of the document. -/
def edit (e : Edit α) : Work η α := do
  let w ← get
  let outcome := perform e w.document
  set { w with document := outcome.2 }
  match outcome.1 with
  | .ok a => return a
  | .error f => throw f

/-- Takes over the outcome of a computation. -/
def ofExcept (outcome : Except Fault α) : Work η α :=
  match outcome with
  | .ok a => return a
  | .error f => throw f

/-- Reads the document. -/
def document : Work η Document := do
  return (← get).document

/-- Writes an event to the journal. -/
def log (e : Event) : Work η Unit := do
  match (← get).journal.refusal? e with
  | some f => throw f
  | none => modify fun w => { w with journal := w.journal.log e }

/-- Writes an event of the tool itself, all of which are for tracing. -/
def trace (logger message : String) (fields : List (String × Datum)) : Work η Unit :=
  log ⟨.debug, logger, message, fields, false⟩

/-- Puts a routing of events in force, and fails if one of its outputs cannot be opened. -/
def configure (r : Routing) : Work η Unit := do
  let w ← get
  let outcome := perform (Journal.configure r) w.journal
  set { w with journal := outcome.2 }
  ofExcept outcome.1

/-- Adds a language to the table, or puts it in the place of one with its name. -/
def addLanguage (l : Language) : Work η Unit :=
  modify fun w =>
    { w with grammars := { w.grammars with table := Assoc.insert w.grammars.table l.name l } }

/-- A new source. -/
def addSource (make : Nat → Source) : Work η Source :=
  modifyGet fun w => (make w.sources, { w with sources := w.sources + 1 })

/-- A new parser; language names are kept in lower case. -/
def addParser (language : String) (tolerant : Bool) : Work η ParserId :=
  modifyGet fun w =>
    (w.parsers.size, { w with parsers := w.parsers.push ⟨Text.lower language, tolerant, false⟩ })

/-- A new method registry. -/
def addMethods : Work η MethodsId :=
  modifyGet fun w => (w.methods.size, { w with methods := w.methods.push .empty })

/-- A new plugin registry. -/
def addPlugins : Work η PluginsId :=
  modifyGet fun w => (w.plugins.size, { w with plugins := w.plugins.push [] })

/-- The parser under an identity. -/
def parser (p : ParserId) : Work η Parser := do
  return (← get).parsers.getD p default

/-- The method registry under an identity. -/
def methods (r : MethodsId) : Work η (MethodRegistry η) := do
  return (← get).methods.getD r .empty

/-- The plugins started in a registry, oldest first. -/
def plugins (r : PluginsId) : Work η (List PluginId) := do
  return (← get).plugins.getD r []

/-- Makes sure that the parser's grammar is loaded. -/
def loadGrammar (p : ParserId) : Work η Unit := do
  let parser ← parser p
  if !parser.loaded then
    match Language.find? (← get).grammars.table parser.language with
    | none => throw (.tool (.unsupportedLanguage parser.language none))
    | some language =>
      if language.available then
        modify fun w => { w with parsers := w.parsers.modify p fun x => { x with loaded := true } }
      else throw (.tool (.unsupportedLanguage parser.language (some language.grammarPackage)))

/-- Reports the first bad node of a tree. -/
def syntaxFault (language : String) (source : Source) (tree : SyntaxTree) : Fault :=
  let bad := tree.firstBad
  let (row, column) := SyntaxTree.pointAt source.data bad.start
  .tool (.syntaxError language (row + 1) (column + 1) bad.kind)

/-- Parses a text into the document and answers the root node. Unless the parser is tolerant, a tree
with errors is refused and nothing is built. -/
def parse (p : ParserId) (text : String) : Work η NodeId := do
  loadGrammar p
  let parser ← parser p
  match (← get).grammars.tree parser.language text with
  | none => throw .noTree
  | some parsed =>
    let source ← addSource fun stamp => .ofText stamp text
    if parsed.hasError && !parser.tolerant then
      throw (syntaxFault parser.language source parsed.root)
    let d ← document
    let (root, forest) ← ofExcept (parsed.root.plant source d.forest)
    modify fun w => { w with document := { w.document with forest := forest } }
    trace "parsing.treesitter" "source_parsed"
      [("language", .text parser.language), ("size", .int source.size)]
    return root

/-- Turns an input into paths. Nodes get root paths of their own. -/
def normalize (p : ParserId) (input : Input) : Work η (List PathId) := do
  let accepted ← ofExcept input.classify
  let paths ← match accepted with
    | .text s => do
      let root ← parse p s
      pure [← edit (Edit.addRoot root)]
    | .node n => do pure [← edit (Edit.addRoot n)]
    | .nodes ns => edit (ns.mapM Edit.addRoot)
    | .path p => pure [p]
    | .paths ps => pure ps
  trace "normalize" "input_normalized"
    [("shape", .text accepted.shape), ("count", .int paths.length)]
  return paths

/-- Installs methods. -/
def installMethods (r : MethodsId) (given : List (String × η)) (kind : Option String) :
    Work η Unit := do
  let registry ← methods r
  match registry.install given kind with
  | .error e => throw (.tool e)
  | .ok registry =>
    modify fun w => { w with methods := w.methods.set! r registry }
    let names := MethodRegistry.sorted (given.map Prod.fst)
    trace "collection.methods" "methods_registered"
      [("names", .list (names.map Datum.text)), ("node_type", .ofText? kind)]

/-- Forgets all methods of a registry. -/
def resetMethods (r : MethodsId) : Work η Unit :=
  modify fun w => { w with methods := w.methods.set! r .empty }

/-- The method that a collection has under a name. -/
def method (c : Collection) (name : String) : Work η (Method η) := do
  if MethodRegistry.isHidden name then throw (.hiddenName name)
  if !c.kind.isKey then throw (.misuse (.unhashable c.kind.typeName))
  match (← methods c.methods).visible name c.kind with
  | some m => return m
  | none => throw (.noMethod c.kind name)

/-- The one root of the tree that a collection without parent is to print. -/
def rootToPrint (c : Collection) : Work η NodeId := do
  if c.paths.isEmpty then throw (.tool .emptyCollection)
  let d ← document
  match c.roots d with
  | [root] =>
    let node := d.forest.node root
    trace "collection" "collection_serialized"
      [("root_type", .text node.kind), ("diff_aware", .bool node.source.isSome)]
    return root
  | roots => throw (.tool (.multipleRoots roots.length))

/-- Prints the tree that a collection lives in. A derived collection prints what it was derived
from. -/
def toSource (c : Collection) : Work η String := do
  let c := c.origin
  let root ← rootToPrint c
  let d ← document
  ofExcept (c.printer.print d.forest root (d.forest.node root).source)

end Work

end Retouch
