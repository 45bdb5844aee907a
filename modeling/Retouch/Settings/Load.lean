import Retouch.Datum.Json
import Retouch.Datum.Merge
import Retouch.Datum.Yaml
import Retouch.Settings
import Retouch.Settings.Reading

/-!
# Settings in layers

Arguments lie over the environment, the environment over the project's file, that over the global
file, and all of them over the defaults. A variable of the environment gives a whole section as JSON
or, with further names after it, one value inside a section.
-/

namespace Retouch.Settings

/-- What is found at the place of a settings file. -/
inductive ConfigFile where
  | missing
  | directory
  | text (s : String)
deriving Inhabited

/-- The mapping a file holds. Content that counts as nothing is the empty mapping. -/
def fileEntries (path : String) (file : ConfigFile) : Except Fault (List (Scalar × Datum)) :=
  match file with
  | .missing => .ok []
  | .directory => .error (.directory path)
  | .text s =>
    match Yaml.parse s with
    | .error .malformed => .error (.tool (.unreadableConfig path "not well formed"))
    | .error (.fault f) => .error f
    | .ok d =>
      if d.isNothing then .ok []
      else
        match d with
        | .mapping entries => .ok entries
        | _ => .error (.tool (.unreadableConfig path "top-level value must be a mapping"))

/-- The settings of each section. -/
def keysOf : String → List String
  | "logging" => ["level", "outputs"]
  | "parser" => ["language", "tolerant"]
  | "printer" => ["separator"]
  | _ => []

/-- Puts a value at the end of a chain of names, opening mappings on the way. A value that is no
mapping blocks the way, and then nothing changes; nor does a weak value change what is there. -/
def putNested (weak : Bool) : List (Scalar × Datum) → List String → Datum → List (Scalar × Datum)
  | entries, [], _ => entries
  | entries, [name], d =>
    if weak && !((Assoc.get? entries (.text name)).getD .null).isNothing then entries
    else Assoc.insert entries (.text name) d
  | entries, name :: next :: rest, d =>
    match Assoc.get? entries (.text name) with
    | none => Assoc.insert entries (.text name) (.mapping (putNested weak [] (next :: rest) d))
    | some (.mapping inner) =>
      Assoc.insert entries (.text name) (.mapping (putNested weak inner (next :: rest) d))
    | some _ => entries

/-- The value of a variable inside a section: the outputs of the log are JSON, all else is text. -/
def nestedValue (r : Reading) (area : String) (names : List String) (text : String) :
    Except Fault Datum :=
  if area = "logging" ∧ (names = ["outputs"] ∨ names = [r.variableOf "outputs"]) ∧ text ≠ "" then
    match Json.parse? text with
    | some d => .ok d
    | none => .error (.malformedVariable area)
  else if r.isAbsent text then .ok .null
  else .ok (.text text)

/-- What the variables inside a section say. -/
def nestedEntries (r : Reading) (area : String) (vars : List (String × String)) :
    Except Fault (List (Scalar × Datum)) :=
  let divider := r.divider.written
  let stem := r.variableOf area ++ divider
  let add (entries : List (Scalar × Datum)) (var : String × String) :
      Except Fault (List (Scalar × Datum)) :=
    if !divider.isEmpty && var.1.startsWith stem then do
      let names ← r.names (var.1.drop stem.length).toString
      return putNested (r.isAbsent var.2) entries names (← nestedValue r area names var.2)
    else .ok entries
  vars.foldlM add []

/-- Names of a section are known in any case, unless the case is to be exact. -/
def canonical (r : Reading) (area : String) (entries : List (Scalar × Datum)) :
    List (Scalar × Datum) :=
  if r.exactCase then entries
  else Assoc.ofList (entries.map fun (k, d) =>
    match k with
    | .text name =>
      match (keysOf area).find? fun known => known == Text.lower name with
      | some known => (.text known, d)
      | none => (k, d)
    | _ => (k, d))

/-- What the environment says about a section, if anything. -/
def environmentSection (r : Reading) (area : String) (vars : List (String × String)) :
    Except Fault (Option Datum) :=
  match Assoc.get? vars (r.variableOf area) with
  | none => do
    let entries ← nestedEntries r area vars
    return if entries.isEmpty then none else some (.mapping (canonical r area entries))
  | some text =>
    if r.isAbsent text then .ok (some .null)
    else match Json.parse? text with
    | none => .error (.malformedVariable area)
    | some (.mapping entries) => do
      let nested ← nestedEntries r area vars
      return some (.mapping (canonical r area (Datum.merge entries nested)))
    | some (.scalar .null) => .ok none
    | some d => .ok (some d)

/-- What the environment says. -/
def environment (r : Reading) (given : List (String × String)) :
    Except Fault (List (Scalar × Datum)) := do
  let found ← sections.mapM fun area => do
    let d ← environmentSection r area (r.assigned given)
    return d.map fun d => (Scalar.text area, d)
  return found.filterMap id

/-- Whether a key names a section in some spelling of upper and lower case. -/
def spells (area : String) : Scalar → Bool
  | .text name => Text.lower name == area
  | _ => false

/-- Arguments by section: a section is known in any case, and of several spellings the first one
counts. Arguments for no section follow as they are. -/
def argumentSections (given : List (Scalar × Datum)) : List (Scalar × Datum) :=
  let named := sections.filterMap fun area =>
    (given.find? fun entry => spells area entry.1).map fun entry => (.text area, entry.2)
  named ++ given.filter fun entry => !sections.any fun area => spells area entry.1

/-- What settings are loaded from. -/
structure Layers where
  globalPath : String
  globalFile : ConfigFile
  projectPath : String
  projectFile : ConfigFile
  assignments : List (String × String)
  arguments : List (Scalar × Datum)

/-- All layers laid over each other. -/
def Layers.merged (env : Surroundings) (layers : Layers) :
    Except Fault (List (Scalar × Datum)) := do
  let globalEntries ← fileEntries layers.globalPath layers.globalFile
  let projectEntries ← fileEntries layers.projectPath layers.projectFile
  let environmentEntries ← environment (← readingOf env.homes layers.arguments) layers.assignments
  let arguments := layers.arguments.filter fun entry => !saysHow entry.1
  return Datum.merge (Datum.merge globalEntries projectEntries)
    (Datum.merge environmentEntries (argumentSections arguments))

/-- The first issue as a fault. The value is written out, so it must be one that can be. -/
def firstIssue : List Issue → Fault
  | [] => .invalid []
  | issue :: _ =>
    if issue.input.isWritable then
      .tool (.invalidSetting issue.path issue.input issue.cause.message)
    else .unwritable

/-- Whether a key is a text. -/
def isText : Scalar → Bool
  | .text _ => true
  | _ => false

/-- The settings that the layers give. What was found good is checked once more as a whole. The
place of the project is an argument of its own and cannot be given among the others. -/
def load (env : Surroundings) (layers : Layers) : Except Fault Settings := do
  if Assoc.contains layers.arguments (.text "root") then
    throw (.misuse (.givenTwice "load_config" "root"))
  let entries ← layers.merged env
  if entries.any fun entry => !isText entry.1 then throw .keyNotText
  match (checkSections env entries).pair (checkExtra entries) with
  | .fault f => throw f
  | .issues found => throw (firstIssue found)
  | .ok (settings, _) =>
    match check env settings.datum with
    | .fault f => throw f
    | .issues found => throw (.invalid found)
    | .ok settings => return settings

end Retouch.Settings
