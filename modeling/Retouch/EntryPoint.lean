import Retouch.Settings
import Retouch.Workspace

/-!
# Entry points and plugins

An entry point turns inputs into collections with one parser, one printer and the registries it
shares with others. A plugin sets itself up through an entry point. It is recorded before its setup
runs, so a setup that asks for the same plugin again, directly or through others, does not run
twice, and a setup that fails is not run again.
-/

namespace Retouch

/-- A parser, a printer and two registries. -/
structure EntryPoint where
  parser : ParserId
  printer : Printer
  plugins : PluginsId
  methods : MethodsId
deriving DecidableEq, Repr, Inhabited

/-- What a plugin does when it is set up. A note without a text is a note of the entry point. -/
inductive SetupStep (η : Type) where
  | install (methods : List (String × η)) (kind : Option String)
  | use (plugin : PluginId)
  | note (text : Option String)
  | fail (fault : Fault)

/-- A plugin: the name it goes by in the journal, and its setup. -/
structure Plugin (η : Type) where
  name : String
  setup : List (SetupStep η)

instance {η : Type} : Inhabited (Plugin η) := ⟨⟨"", []⟩⟩

namespace Plugin

variable {η : Type}

/-- More steps than any run of setups takes, for each of a family of plugins is started at most once
in a registry. -/
def budget (family : Array (Plugin η)) : Nat :=
  2 * family.toList.foldr (fun p steps => p.setup.length + 1 + steps) 0 + 1

/-- Records a plugin and answers its setup, unless it was recorded before. -/
def begin (family : Array (Plugin η)) (r : PluginsId) (p : PluginId) :
    Work η (Option (List (SetupStep η))) := do
  let plugin := family.getD p default
  if (← Work.plugins r).contains p then
    Work.trace "plugins" "plugin_already_registered" [("plugin", .text plugin.name)]
    return none
  else
    modify fun w => { w with plugins := w.plugins.modify r (· ++ [p]) }
    Work.trace "plugins" "plugin_registered" [("plugin", .text plugin.name)]
    return some plugin.setup

/-- Runs steps in order; the setup of a plugin asked for is run in the place of the step. -/
def run (family : Array (Plugin η)) (e : EntryPoint) : Nat → List (SetupStep η) → Work η Unit
  | _, [] => return ()
  | 0, _ :: _ => throw .endless
  | fuel + 1, step :: rest => do
    match step with
    | .install methods kind =>
      Work.installMethods e.methods methods kind
      run family e fuel rest
    | .use q =>
      let setup ← begin family e.plugins q
      run family e fuel (setup.getD [] ++ rest)
    | .note text =>
      modify fun w => { w with trail := w.trail.push text }
      run family e fuel rest
    | .fail fault => throw fault

/-- Sets a plugin up with an entry point, unless the registry has it already. -/
def register (family : Array (Plugin η)) (r : PluginsId) (p : PluginId) (e : EntryPoint) :
    Work η Bool := do
  match ← begin family r p with
  | none => return false
  | some setup =>
    run family e (budget family) setup
    return true

/-- Forgets the plugins of a registry. -/
def reset (r : PluginsId) : Work η Unit :=
  modify fun w => { w with plugins := w.plugins.modify r fun _ => [] }

end Plugin

namespace EntryPoint

variable {η : Type}

/-- An entry point with registries of its own. -/
def ofSettings (s : Settings) : Work η EntryPoint := do
  let parser ← Work.addParser s.parser.language s.parser.tolerant
  let plugins ← Work.addPlugins
  let methods ← Work.addMethods
  return ⟨parser, ⟨s.printer.separator⟩, plugins, methods⟩

/-- The collection of an input. -/
def call (e : EntryPoint) (input : Input) : Work η Collection := do
  let paths ← Work.normalize e.parser input
  let d ← Work.document
  Work.ofExcept (Collection.ofItems d (paths.map Item.path) e.methods e.printer none .null)

/-- Sets a plugin up, once. -/
def use (e : EntryPoint) (family : Array (Plugin η)) (p : PluginId) : Work η Unit := do
  let _ ← Plugin.register family e.plugins p e

/-- The same entry point with another parser. -/
def withParser (e : EntryPoint) (parser : ParserId) : EntryPoint :=
  { e with parser := parser }

/-- An entry point in words. -/
def describe (e : EntryPoint) : Work η String := do
  let parser ← Work.parser e.parser
  let started ← Work.plugins e.plugins
  return "Core(parser=" ++ parser.describe ++ ", plugins=" ++ toString started.length ++ ")"

end EntryPoint

end Retouch
