import Retouch.Assoc
import Retouch.Fault
import Retouch.FilePath
import Retouch.Text.Lowercase

/-!
# How the environment is read

Some arguments set nothing and say how the variables of the environment are read: what their names
start with, what divides the names, how often a name is divided, whether case counts, and which
values are passed over or stand for the absent value. `readingOf` takes them from the arguments, and
refuses some that cannot be what they are meant for. A divider that is no text is refused only where
a name is to be divided by it.
-/

namespace Retouch.Settings

/-- What stands between the names in a variable's name. -/
inductive Divider where
  | text (s : String)
  /-- Something that is no text, by its written form and the name of its type. -/
  | other (written typeName : String)
deriving Inhabited

/-- The written form of a divider. -/
def Divider.written : Divider → String
  | .text s => s
  | .other s _ => s

/-- How the variables of the environment are read. -/
structure Reading where
  /-- What every variable's name starts with. -/
  stem : String := "CODESHIFT__"
  divider : Divider := .text "__"
  /-- So many names at most follow the section's, unless this is zero or less. -/
  most : Int := 0
  exactCase : Bool := false
  ignoreEmpty : Bool := false
  /-- The text that stands for the absent value. -/
  absent : Option String := none

namespace Reading

/-- The name of the variable for a name. -/
def variableOf (r : Reading) (name : String) : String :=
  if r.exactCase then r.stem ++ name else Text.lower (r.stem ++ name)

/-- Variables by name; of two spellings of one name, the one set first for the first time gives
way. -/
def assigned (r : Reading) (given : List (String × String)) : List (String × String) :=
  let kept := (Assoc.ofList given).filter fun entry => !(r.ignoreEmpty && entry.2 == "")
  if r.exactCase then kept
  else Assoc.ofList (kept.map fun entry => (Text.lower entry.1, entry.2))

/-- The names in what follows a section's name. -/
def names (r : Reading) (s : String) : Except Fault (List String) :=
  match r.divider with
  | .other _ typeName => .error (.misuse (.dividerNotText typeName))
  | .text divider =>
    if !Word.holds (r.most - 1) then .error .placeTooLarge
    else
      let all := s.splitOn divider
      let most := r.most.toNat
      if most = 0 ∨ all.length ≤ most then .ok all
      else .ok (all.take (most - 1) ++ [String.intercalate divider (all.drop (most - 1))])

/-- Whether a text stands for the absent value. -/
def isAbsent (r : Reading) (s : String) : Bool :=
  r.absent == some s

end Reading

/-- The arguments that say how to read and set nothing. -/
def readingNames : List String :=
  ["_case_sensitive", "_nested_model_default_partial_update", "_env_prefix",
   "_env_prefix_target", "_env_file", "_env_file_depth", "_env_file_encoding",
   "_env_ignore_empty", "_env_nested_delimiter", "_env_nested_max_split", "_env_parse_none_str",
   "_env_parse_enums", "_cli_prog_name", "_cli_parse_args", "_cli_settings_source",
   "_cli_parse_none_str", "_cli_hide_none_type", "_cli_avoid_json", "_cli_enforce_required",
   "_cli_use_class_docs_for_groups", "_cli_exit_on_error", "_cli_prefix",
   "_cli_flag_prefix_char", "_cli_implicit_flags", "_cli_ignore_unknown_args", "_cli_kebab_case",
   "_cli_shortcuts", "_secrets_dir", "_build_sources"]

/-- Whether an argument says how to read. -/
def saysHow : Scalar → Bool
  | .text name => readingNames.contains name
  | _ => false

/-- The value of an argument that may be left out. -/
def asked (given : List (Scalar × Datum)) (name : String) : Datum :=
  (Assoc.get? given (.text name)).getD .null

/-- The divider that an argument asks for. What counts as nothing divides nothing. -/
def dividerOf (d : Datum) (absent : Divider) : Divider :=
  match d with
  | .scalar .null => absent
  | .scalar (.text s) => .text s
  | d => if d.isNothing then .text "" else .other d.display d.typeName

/-- How many names an argument allows. What counts as nothing sets no bound. -/
def mostOf (d : Datum) : Except Fault Int :=
  match d with
  | .scalar (.int n) => .ok n
  | .scalar (.bool b) => .ok b.toNat
  | d => if d.isNothing then .ok 0 else .error (.misuse (.notSubtractable d.typeName))

/-- The stem that an argument asks for; a collection is none. -/
def stemOf (d : Datum) (absent : String) : Except Fault (Option String) :=
  match d with
  | .scalar .null => .ok (some absent)
  | .scalar (.text s) => .ok (some s)
  | .scalar _ => .error (.misuse (.noLength d.typeName))
  | _ => .ok none

/-- Files with more variables are looked for, though none counts; so their paths have to be
paths. -/
def checkFiles (homes : List (String × String)) (d : Datum) : Except Fault Unit :=
  match d with
  | .scalar .null => .ok ()
  | .scalar (.text s) => checkPath s
  | .scalar _ => .error (.misuse (.notIterable d.typeName))
  | .list items => items.forM fun item => match item with
    | .scalar (.text s) => checkPath s
    | item => .error (.misuse (.notPath item.typeName))
  | .mapping entries => entries.forM fun entry => match entry.1 with
    | .text s => checkPath s
    | k => .error (.misuse (.notPath (Datum.scalar k).typeName))
where
  checkPath (s : String) : Except Fault Unit :=
    let path := FilePath.ofString s
    if path.namesNull then .error .nullInPath
    else if (path.expandHome homes).isNone then .error .homeless
    else .ok ()

/-- How to read, as the arguments say. -/
def readingOf (homes : List (String × String)) (given : List (Scalar × Datum)) :
    Except Fault Reading := do
  let basic : Reading := {}
  let most ← mostOf (asked given "_env_nested_max_split")
  let stem ← stemOf (asked given "_env_prefix") basic.stem
  checkFiles homes (asked given "_env_file")
  let some stem := stem | throw (.malformedVariable "logging")
  return {
    stem := if (asked given "_env_prefix_target").isText "alias" then "" else stem
    divider := dividerOf (asked given "_env_nested_delimiter") basic.divider
    most := most
    exactCase := !(asked given "_case_sensitive").isNothing
    ignoreEmpty := !(asked given "_env_ignore_empty").isNothing
    absent := match asked given "_env_parse_none_str" with
      | .scalar (.text s) => some s
      | _ => none }

end Retouch.Settings
