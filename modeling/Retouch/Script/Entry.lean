import Retouch.Script.Attribute
import Retouch.Script.Describe
import Retouch.Script.Sequence

/-!
# Entry points of a script

Entry points turn values into collections and set plugins up. Where the parts of an entry point are
fit for one, the work is done by `EntryPoint.call` and `Plugin.register`; where they are not, it
goes as far as it can.
-/

namespace Retouch.Script

variable {η : Type}

/-- The paths of a value, for which a text needs a parser. -/
def normalize (parser v : Value) : Script η (List PathId) := do
  match parser, v with
  | .parser p, v => work (Work.normalize p v.input)
  | other, .scalar (.text _) _ =>
    let _ ← member other "parse"
    throw .noTree
  | _, v => work (Work.normalize 0 v.input)

/-- The collection of a value. -/
def callEntry (e : EntryId) (v : Value) : Script η Value := do
  let p ← parts e
  match entryPoint? p, (← session).strangers with
  | some point, [] => addHeld ⟨← work (point.call v.input), p.methods, p.printer, .null⟩
  | _, _ =>
    let paths ← normalize p.parser v
    addHeld (← build (paths.map Item.path) p.methods p.printer .null .null)

/-- What a plugin is set up with, if the value has what a setup may need. -/
def setupPoint? (v : Value) : Script η (Option EntryPoint) := do
  match v with
  | .entry e =>
    match (← parts e).plugins, (← parts e).methods with
    | .plugins plugins, .methods methods => return some ⟨0, default, plugins, methods⟩
    | _, _ => return none
  | _ => return none

/-- Installs methods in what should be a registry. -/
def install (registry : Value) (given : List (String × η)) (kind : Option String) :
    Script η Unit := do
  match registry with
  | .methods r => work (Work.installMethods r given kind)
  | v =>
    let _ ← member v "register"
    throw .noTree

/-- Goes through a setup with a value that lacks what a setup may need. -/
def setUpWith (entry : Value) : List (SetupStep η) → Script η Unit
  | [] => return ()
  | step :: rest => do
    match step, entry with
    | .install given kind, .entry e => install (← parts e).methods given kind
    | .install _ _, v => let _ ← member v "register_methods"
    | .use _, .entry e => let _ ← member (← parts e).plugins "register"
    | .use _, v => let _ ← member v "use"
    | .note text, v => note ((text.map Value.text).getD v)
    | .fail f, _ => throw f
    setUpWith entry rest

/-- Puts what plugins noted in the trace. -/
def takeNotes (entry : Value) : Script η Unit := do
  for text in (← session).work.trail do
    note ((text.map Value.text).getD entry)
  change fun s => { s with work := { s.work with trail := #[] } }

/-- Sets a plugin up with a value, unless the registry has it already. The absent value counts as
registered. -/
def registerPlugin (r : PluginsId) (plugin entry : Value) : Script η Bool := do
  match plugin with
  | .scalar .null _ =>
    work (Work.trace "plugins" "plugin_already_registered"
      [("plugin", .text plugin.datum.literal)])
    return false
  | plugin =>
    let p ← pluginFor plugin (← describe plugin)
    let family := (← session).family
    match ← setupPoint? entry with
    | some point =>
      let outcome ← attempt (work (Plugin.register family r p point))
      takeNotes entry
      ofExcept outcome
    | none =>
      match ← work (Plugin.begin family r p), plugin with
      | none, _ => return false
      | some _, .entry e =>
        let _ ← callEntry e entry
        return true
      | some setup, _ =>
        setUpWith entry setup
        return true

/-- Whether a registry has a plugin. -/
def isRegistered (r : PluginsId) (plugin : Value) : Script η Bool := do
  match plugin with
  | .scalar .null _ => return true
  | plugin =>
    let started ← (← work (Work.plugins r)).mapM pluginAt
    return started.any plugin.isSame

/-- Sets a plugin up with an entry point. -/
def use (e : EntryId) (plugin : Value) : Script η Value := do
  match (← parts e).plugins with
  | .plugins r => let _ ← registerPlugin r plugin (.entry e)
  | .methods _ => let _ ← iterate plugin
  | v => let _ ← member v "register"
  return .entry e

/-- Runs a plugin with a value. -/
def runPlugin (p : PluginId) (entry : Value) : Script η Unit := do
  let family := (← session).family
  let setup := (family.getD p default).setup
  match ← setupPoint? entry with
  | some point =>
    let outcome ← attempt (work (Plugin.run family point (Plugin.budget family) setup))
    takeNotes entry
    ofExcept outcome
  | none => setUpWith entry setup

end Retouch.Script
