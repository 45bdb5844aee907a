import Retouch.Script.Value

/-!
# Sessions

What a script works on besides the workspace: the collections and entry points it made, the
attributes it put on values, and the plugins it knows. Parts of a collection or an entry point may
be any values. A node may be given a child that is no node; such a stranger has a place among the
nodes that nothing is ever read from.
-/

namespace Retouch

/-- A collection with the values it was made with. -/
structure Held where
  value : Collection
  methods : Value
  printer : Value
  parent : Value
deriving Inhabited

/-- The values an entry point was made with. -/
structure Parts where
  parser : Value
  printer : Value
  plugins : Value
  methods : Value
deriving Inhabited

/-- The state of a script. Guests are values that were registered as plugins without being any; the
trace holds what was noted on the way. What is installed as a method without being a handler is kept
as an inert one. -/
structure Session (η : Type) where
  work : Workspace η
  collections : Array Held
  entries : Array Parts
  attributes : List ((String × Nat) × List (String × Value))
  family : Array (Plugin η)
  guests : List (PluginId × Value)
  strangers : List (NodeId × Value)
  tags : Nat
  trace : Array Value
  inert : η
  isInert : η → Bool

/-- A piece of a script, which may fail. What was changed before the failure stays changed. -/
abbrev Script (η : Type) := ExceptT Fault (StateM (Session η))

namespace Script

variable {η α : Type}

/-- Takes over the outcome of a computation. -/
def ofExcept (outcome : Except Fault α) : Script η α :=
  match outcome with
  | .ok a => return a
  | .error f => throw f

/-- Reads the state. -/
def session : Script η (Session η) := get

/-- Changes the state. -/
def change (f : Session η → Session η) : Script η Unit := modify f

/-- Changes the state and answers something about it. -/
def advance (f : Session η → α × Session η) : Script η α := modifyGet f

/-- Does work in the workspace. -/
def work (x : Work η α) : Script η α := do
  let s ← session
  let outcome : Except Fault α × Workspace η := (x.run.run s.work).run
  set { s with work := outcome.2 }
  ofExcept outcome.1

instance : MonadLift (Work η) (Script η) := ⟨work⟩

instance : MonadLift Edit (Script η) := ⟨fun e => work (Work.edit e)⟩

/-- Fails for the way something was used. -/
def misuse (problem : Misuse) : Script η α :=
  throw (.misuse problem)

/-- Reads the document. -/
def document : Script η Document := do
  return (← session).work.document

/-- Reads the forest. -/
def forest : Script η Forest := do
  return (← document).forest

/-- A tag that was never given before. -/
def newTag : Script η Nat :=
  advance fun s => (s.tags, { s with tags := s.tags + 1 })

/-- Notes a value. -/
def note (v : Value) : Script η Unit :=
  change fun s => { s with trace := s.trace.push v }

/-- Does something and answers how it came out. -/
def attempt (x : Script η α) : Script η (Except Fault α) :=
  ExceptT.lift x.run

/-! ## Nodes -/

/-- What a place among the nodes holds: a node, or the stranger put there. -/
def atPlace (n : NodeId) : Script η Value := do
  return (Assoc.get? (← session).strangers n).getD (.node n)

/-- The place among the nodes for a value. -/
def placeFor (v : Value) : Script η NodeId := do
  match v with
  | .node n => return n
  | v =>
    match (← session).strangers.find? fun entry => entry.2.isSame v with
    | some entry => return entry.1
    | none =>
      let n ← Edit.addNode (.leaf "" "" true)
      change fun s => { s with strangers := (n, v) :: s.strangers }
      return n

/-- Fails if there is a stranger at one of the places, for want of an attribute. -/
def requireNodes (places : List NodeId) (name : String) : Script η Unit := do
  let strangers := (← session).strangers
  match places.findSome? fun n => Assoc.get? strangers n with
  | some v => throw (.noAttribute v.typeName name)
  | none => return ()

/-! ## Collections and entry points -/

/-- The collection under an identity. -/
def held (c : CollectionId) : Script η Held := do
  return (← session).collections.getD c default

/-- The entry point under an identity. -/
def parts (e : EntryId) : Script η Parts := do
  return (← session).entries.getD e default

/-- A new collection. -/
def addHeld (h : Held) : Script η Value :=
  advance fun s =>
    (.collection s.collections.size, { s with collections := s.collections.push h })

/-- A new entry point. -/
def addEntry (p : Parts) : Script η Value :=
  advance fun s => (.entry s.entries.size, { s with entries := s.entries.push p })

/-- The collection made of items and values. -/
def build (items : List Item) (methods printer parent : Value) (kind : Datum) :
    Script η Held := do
  let registry : MethodsId := match methods with
    | .methods r => r
    | _ => 0
  let style : Printer := match printer with
    | .printer _ p => p
    | _ => default
  let above : Option Collection ← match parent with
    | .collection c => do pure (some (← held c).value)
    | _ => pure none
  let d ← document
  if !kind.isText Collection.anyKind then
    requireNodes ((items.filterMap Item.path?).map fun p => (d.path p).node) "type"
  let value ← ofExcept (Collection.ofItems d items registry style above kind)
  return ⟨value, methods, printer, parent⟩

/-- Keeps a collection that was made from another. -/
def keep (c : CollectionId) (made : Collection) : Script η Value := do
  let h ← held c
  addHeld { h with value := made, parent := .collection c }

/-- The entry point of values that are fit for one. -/
def entryPoint? (p : Parts) : Option EntryPoint :=
  match p.parser, p.printer, p.plugins, p.methods with
  | .parser parser, .printer _ printer, .plugins plugins, .methods methods =>
    some ⟨parser, printer, plugins, methods⟩
  | _, _, _, _ => none

/-! ## Attributes that a script put on values -/

/-- The attributes put on a value. -/
def extras (v : Value) : Script η (List (String × Value)) := do
  match v.identity? with
  | none => return []
  | some key => return (Assoc.get? (← session).attributes key).getD []

/-- Changes the attributes put on a value. -/
def setExtras (v : Value) (f : List (String × Value) → List (String × Value)) :
    Script η Unit := do
  match v.identity? with
  | none => return ()
  | some key =>
    let now ← extras v
    change fun s => { s with attributes := Assoc.insert s.attributes key (f now) }

/-! ## Plugins -/

/-- The identity that a value has as a plugin. A value that is no plugin becomes a guest: its setup
does nothing but fail. -/
def pluginFor (v : Value) (name : String) : Script η PluginId := do
  match v with
  | .plugin p => return p
  | v =>
    match (← session).guests.find? fun entry => entry.2.isSame v with
    | some entry => return entry.1
    | none =>
      let fault : Fault := match v with
        | .entry _ => .tool (.unsupportedInput "Core")
        | v => .misuse (.notCallable v.typeName)
      advance fun s =>
        (s.family.size, { s with
          family := s.family.push ⟨name, [.fail fault]⟩
          guests := (s.family.size, v) :: s.guests })

/-- The value that was registered as a plugin. -/
def pluginAt (p : PluginId) : Script η Value := do
  return (Assoc.get? (← session).guests p).getD (.plugin p)

end Script

end Retouch
