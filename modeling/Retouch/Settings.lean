import Retouch.Assoc
import Retouch.Fault
import Retouch.Logging.Routing
import Retouch.Text.Lowercase

/-!
# Settings and their validation

The settings of the tool by section. Checking data goes through the sections in a fixed order and
gathers every issue; keys that no section knows are passed over, or refused at the top level where
that is asked for. An unknown home directory ends a check at once.
-/

namespace Retouch

/-- How source text is parsed. -/
structure ParserSettings where
  language : String
  tolerant : Bool
deriving DecidableEq, Repr, Inhabited

/-- How new nodes are printed. -/
structure PrinterSettings where
  separator : String
deriving DecidableEq, Repr, Inhabited

/-- All settings. -/
structure Settings where
  logging : Routing
  parser : ParserSettings
  printer : PrinterSettings
deriving DecidableEq, Repr, Inhabited

/-- What a check needs to know of its surroundings: the home directories of users, the user's own
under the empty name, and the names of the languages. -/
structure Surroundings where
  homes : List (String × String)
  languages : List String
deriving Repr, Inhabited

/-- The outcome of a check. -/
inductive Checked (α : Type) where
  | ok (a : α)
  | issues (found : List Issue)
  | fault (f : Fault)

namespace Checked

/-- Both outcomes together: issues of both are kept, in order. -/
def pair {α β : Type} : Checked α → Checked β → Checked (α × β)
  | .fault f, _ => .fault f
  | _, .fault f => .fault f
  | .issues i, .issues j => .issues (i ++ j)
  | .issues i, .ok _ => .issues i
  | .ok _, .issues j => .issues j
  | .ok a, .ok b => .ok (a, b)

/-- Changes what was found good. -/
def map {α β : Type} (g : α → β) : Checked α → Checked β
  | .ok a => .ok (g a)
  | .issues i => .issues i
  | .fault f => .fault f

/-- Issues below a step of the way. -/
def under {α : Type} (step : Locator) : Checked α → Checked α
  | .issues i => .issues (i.map fun issue => { issue with location := step :: issue.location })
  | c => c

/-- One issue with a value. -/
def refuse {α : Type} (cause : IssueCause) (input : Datum) : Checked α :=
  .issues [⟨[], cause, input⟩]

/-- The outcome as a value or a fault. -/
def toExcept {α : Type} : Checked α → Except Fault α
  | .ok a => .ok a
  | .issues found => .error (.invalid found)
  | .fault f => .error f

end Checked

namespace Settings

/-- The outputs used where none are given. -/
def defaultOutput : LogOutput := ⟨.console, "stderr", none⟩

/-- Logging where nothing is said about it. -/
def defaultLogging : Routing := ⟨.info, [defaultOutput]⟩

/-- Parsing where nothing is said about it. -/
def defaultParser : ParserSettings := ⟨"javascript", false⟩

/-- Printing where nothing is said about it. -/
def defaultPrinter : PrinterSettings := ⟨" "⟩

/-- A text. -/
def checkText : Datum → Checked String
  | .scalar (.text s) => .ok s
  | d => .refuse .notText d

/-- The name of a level. -/
def checkLevel (d : Datum) : Checked Level :=
  match d with
  | .scalar (.text s) =>
    match Level.ofName? s with
    | some l => .ok l
    | none => .refuse (.notOneOf (Level.all.map Level.name)) d
  | _ => .refuse (.notOneOf (Level.all.map Level.name)) d

/-- The name of a level, or nothing. -/
def checkLevel? (d : Datum) : Checked (Option Level) :=
  match d with
  | .scalar .null => .ok none
  | d => (checkLevel d).map some

/-- The name of a format. -/
def checkFormat (d : Datum) : Checked LogFormat :=
  match d with
  | .scalar (.text "json") => .ok .json
  | .scalar (.text "console") => .ok .console
  | _ => .refuse (.notOneOf ["json", "console"]) d

/-- A stream, or a file by its absolute path. -/
def checkDestination (env : Surroundings) (d : Datum) : Checked String :=
  match d with
  | .scalar (.text s) =>
    let path := FilePath.ofString s
    if Destination.isStream s then .ok s
    else if path.namesNull then .refuse (.custom Fault.nullInPath.message) d
    else
      match path.expandHome env.homes with
      | none => .fault .homeless
      | some path =>
        if path.isAbsolute then .ok path.toString
        else .refuse (.custom ("File destination must be absolute path: " ++ s)) d
  | _ => .refuse .notText d

/-- Words that are read as true or false, in any case. -/
def truth? (s : String) : Option Bool :=
  let word := s.map Char.toLower
  if ["0", "off", "f", "false", "n", "no"].contains word then some false
  else if ["1", "on", "t", "true", "y", "yes"].contains word then some true
  else none

/-- A truth value by its number. Numbers beyond a machine word are not considered. -/
def checkTruth (n : Int) (d : Datum) : Checked Bool :=
  if n = 0 then .ok false
  else if n = 1 then .ok true
  else .refuse (if Word.holds n then .unclearBoolean else .notBoolean) d

/-- A truth value, or a number or word for one. A number with a point has to be a whole one. -/
def checkBool (d : Datum) : Checked Bool :=
  match d with
  | .scalar (.bool b) => .ok b
  | .scalar (.int n) => checkTruth n d
  | .scalar (.real x) =>
    match x.integer? with
    | some n => if Word.holds (n - 1) then checkTruth n d else .refuse .notBoolean d
    | none => .refuse .notBoolean d
  | .scalar (.text s) =>
    match truth? s with
    | some b => .ok b
    | none => .refuse .unclearBoolean d
  | _ => .refuse .notBoolean d

/-- The name of a known language, in any case. -/
def checkLanguage (env : Surroundings) (d : Datum) : Checked String :=
  match d with
  | .scalar (.text s) =>
    if env.languages.contains (Text.lower s) then .ok (Text.lower s)
    else
      .refuse (.custom ("Unsupported language '" ++ s ++ "'. Supported: " ++
        String.intercalate ", " env.languages)) d
  | _ => .refuse .notText d

/-- The value under a name, or the default where the name is not there. -/
def field {α : Type} (entries : List (Scalar × Datum)) (name : String) (absent : α)
    (check : Datum → Checked α) : Checked α :=
  match Assoc.get? entries (.text name) with
  | none => .ok absent
  | some d => (check d).under (.key name)

/-- The items of a list from a position on. -/
def checkItems {α : Type} (check : Datum → Checked α) : Nat → List Datum → Checked (List α)
  | _, [] => .ok []
  | i, d :: rest =>
    (((check d).under (.index i)).pair (checkItems check (i + 1) rest)).map fun (a, others) =>
      a :: others

/-- One output. -/
def checkOutput (env : Surroundings) (d : Datum) : Checked LogOutput :=
  match d with
  | .mapping entries =>
    ((field entries "format" defaultOutput.format checkFormat).pair
      ((field entries "destination" defaultOutput.destination (checkDestination env)).pair
        (field entries "level" defaultOutput.level checkLevel?))).map
      fun (format, destination, level) => ⟨format, destination, level⟩
  | _ => .refuse (.notSection "LogOutputConfig") d

/-- The list of outputs. -/
def checkOutputs (env : Surroundings) (d : Datum) : Checked (List LogOutput) :=
  match d with
  | .list items => checkItems (checkOutput env) 0 items
  | _ => .refuse .notList d

/-- The section on logging. -/
def checkLogging (env : Surroundings) (d : Datum) : Checked Routing :=
  match d with
  | .mapping entries =>
    ((field entries "level" defaultLogging.level checkLevel).pair
      (field entries "outputs" defaultLogging.outputs (checkOutputs env))).map
      fun (level, outputs) => ⟨level, outputs⟩
  | _ => .refuse (.notSection "LoggingConfig") d

/-- The section on parsing. -/
def checkParser (env : Surroundings) (d : Datum) : Checked ParserSettings :=
  match d with
  | .mapping entries =>
    ((field entries "language" defaultParser.language (checkLanguage env)).pair
      (field entries "tolerant" defaultParser.tolerant checkBool)).map
      fun (language, tolerant) => ⟨language, tolerant⟩
  | _ => .refuse (.notSection "ParserConfig") d

/-- The section on printing. -/
def checkPrinter (d : Datum) : Checked PrinterSettings :=
  match d with
  | .mapping entries =>
    (field entries "separator" defaultPrinter.separator checkText).map fun s => ⟨s⟩
  | _ => .refuse (.notSection "PrinterConfig") d

/-- The three sections. -/
def checkSections (env : Surroundings) (entries : List (Scalar × Datum)) : Checked Settings :=
  ((field entries "logging" defaultLogging (checkLogging env)).pair
    ((field entries "parser" defaultParser (checkParser env)).pair
      (field entries "printer" defaultPrinter checkPrinter))).map
    fun (logging, parser, printer) => ⟨logging, parser, printer⟩

/-- All settings, keys that name no section being passed over. -/
def check (env : Surroundings) (d : Datum) : Checked Settings :=
  match d with
  | .mapping entries => checkSections env entries
  | _ => .refuse (.notSection "CodeshiftConfig") d

/-- The section on logging for one output on the default destination. -/
def basicLogging (level : Datum) (json : Bool) : Datum :=
  .mapping
    [(.text "level", level),
     (.text "outputs", .list
      [.mapping [(.text "format", .text (if json then "json" else "console"))]])]

/-- The keys of the sections. -/
def sections : List String := ["logging", "parser", "printer"]

/-- An issue for every key that names no section. -/
def checkExtra (entries : List (Scalar × Datum)) : Checked Unit :=
  let found := entries.filterMap fun entry =>
    match entry.1 with
    | .text name =>
      if sections.contains name then none else some ⟨[.key name], .extra, entry.2⟩
    | _ => none
  if found.isEmpty then .ok () else .issues found

/-- A level as data. -/
def levelDatum : Option Level → Datum
  | some l => .text l.name
  | none => .null

/-- An output as data. -/
def outputDatum (o : LogOutput) : Datum :=
  .mapping
    [(.text "format", .text (match o.format with
      | .json => "json"
      | .console => "console")),
     (.text "destination", .text o.destination),
     (.text "level", levelDatum o.level)]

/-- The section on logging as data. -/
def loggingDatum (r : Routing) : Datum :=
  .mapping
    [(.text "level", .text r.level.name), (.text "outputs", .list (r.outputs.map outputDatum))]

/-- The section on parsing as data. -/
def parserDatum (p : ParserSettings) : Datum :=
  .mapping [(.text "language", .text p.language), (.text "tolerant", .bool p.tolerant)]

/-- The section on printing as data. -/
def printerDatum (p : PrinterSettings) : Datum :=
  .mapping [(.text "separator", .text p.separator)]

/-- All settings as data. -/
def datum (s : Settings) : Datum :=
  .mapping
    [(.text "logging", loggingDatum s.logging), (.text "parser", parserDatum s.parser),
     (.text "printer", printerDatum s.printer)]

/-- What a record of settings by its name makes of data, with the defaults filled in. Without a
known name the data are those of all settings. -/
def normalForm (env : Surroundings) (name : String) (d : Datum) : Checked Datum :=
  match name with
  | "LogOutputConfig" => (checkOutput env d).map outputDatum
  | "LoggingConfig" => (checkLogging env d).map loggingDatum
  | "ParserConfig" => (checkParser env d).map parserDatum
  | "PrinterConfig" => (checkPrinter d).map printerDatum
  | _ => (check env d).map datum

end Settings

end Retouch
