import Retouch.Assoc
import Retouch.Datum.Literal
import Retouch.Fault
import Retouch.Logging.Level

/-!
# Log lines

An event as text: JSON, console text, or the two fallback forms used where no output is set up.
Named fields keep their order in JSON. In console text some names have a column of their own, and
the others follow sorted. Some events have no text in a form: a number may be too long, a day or a
time is no key in JSON, and what follows a line of console text has to be text.
-/

namespace Retouch

namespace Scalar

/-- Why a scalar cannot be written as JSON. -/
def jsonFault? (s : Scalar) : Option Fault :=
  if s.isWritable then none else some .unwritable

/-- Why a scalar cannot be a key in JSON. -/
def keyFault? : Scalar → Option Fault
  | .moment m => some (.misuse (.notTextKey (Datum.scalar (.moment m)).typeName))
  | s => s.jsonFault?

end Scalar

namespace Datum

mutual

/-- Why a value cannot be written as JSON: what is met first. -/
def jsonFault? : Datum → Option Fault
  | .scalar s => s.jsonFault?
  | .list items => itemsFault? items
  | .mapping entries => entriesFault? entries

/-- Why items cannot be written as JSON. -/
def itemsFault? : List Datum → Option Fault
  | [] => none
  | d :: rest => (jsonFault? d).or (itemsFault? rest)

/-- Why entries cannot be written as JSON. -/
def entriesFault? : List (Scalar × Datum) → Option Fault
  | [] => none
  | (k, d) :: rest => (k.keyFault?.or (jsonFault? d)).or (entriesFault? rest)

end

end Datum

/-- Something that happened. A plain event comes from code that logs a text and nothing more. -/
structure Event where
  level : Level
  logger : String
  message : String
  fields : List (String × Datum)
  plain : Bool
deriving Inhabited

namespace Event

/-- Puts texts under names. -/
def put (fields : List (String × Datum)) (names : List (String × String)) :
    List (String × Datum) :=
  names.foldl (fun fields entry => Assoc.insert fields entry.1 (.text entry.2)) fields

/-- The event as a record: its fields, then what every event has. -/
def entries (e : Event) (stamp : String) : List (String × Datum) :=
  put e.fields [("event", e.message), ("level", e.level.label), ("logger", e.logger),
    ("timestamp", stamp)]

/-- The record as data. -/
def datum (e : Event) (stamp : String) : Datum :=
  .mapping ((e.entries stamp).map fun entry => (.text entry.1, entry.2))

/-- Fields that outputs keep for themselves. -/
def internal : List String := ["_record", "_from_structlog"]

/-- The event without the fields that outputs keep for themselves. -/
def outward (e : Event) : Event :=
  { e with fields := e.fields.filter fun entry => !internal.contains entry.1 }

/-- An event is handed on by calls with parameters of their own, and a field cannot have the name of
one. An event below the level in force goes through the first call only. -/
def callFault? (e : Event) (passes : Bool) : Option Fault :=
  let names := e.fields.map Prod.fst
  let first := if passes then "_make_filtering_bound_logger.<locals>.make_method.<locals>.meth"
    else "_nop"
  match names.find? fun name => name == "event" || name == "self" with
  | some name => some (.misuse (.givenTwice first name))
  | none =>
    if passes && names.contains "method_name" then
      some (.misuse (.givenTwice "BoundLoggerBase._proxy_to_logger" "method_name"))
    else none

/-- Outputs ask the record in an event for its name, so nothing else may stand in its place. -/
def routedFault? (e : Event) : Option Fault :=
  match Assoc.get? e.fields "_record" with
  | none | some (.scalar .null) => none
  | some d => some (.noAttribute d.typeName "name")

/-- The JSON line, or why there is none. -/
def jsonLine (e : Event) (stamp : String) : Except Fault String :=
  match (e.outward.datum stamp).jsonFault? with
  | some f => .error f
  | none => .ok (e.outward.datum stamp).json

/-- Texts that would run into their surroundings are quoted. -/
def needsQuotes (s : String) : Bool :=
  s.toList.any fun c => c == ' ' || c == '\t' || c == '=' || c == '\r' || c == '\n' || c == '"'
    || c == '\''

/-- A value in console text. -/
def fieldText : Datum → String
  | .scalar (.text s) => if needsQuotes s then Text.quoted s else s
  | d => d.literal

/-- A name with its value. -/
def pairText (entry : String × Datum) : String :=
  entry.1 ++ "=" ++ fieldText entry.2

/-- Names with a column of their own, or none at all. -/
def placed : List String :=
  ["", "event", "exc_info", "exception", "level", "logger", "logger_name", "stack", "timestamp"]

/-- Names with their values, sorted, without those that are placed. -/
def fieldTexts (fields : List (String × Datum)) : List String :=
  let others := fields.filter fun entry => !placed.contains entry.1
  (others.mergeSort fun a b => !decide (b.1 < a.1)).map pairText

/-- The field without a name, which comes before everything else. -/
def unnamed (fields : List (String × Datum)) : List String :=
  (fields.filter fun entry => entry.1.isEmpty).map pairText

/-- The value of a field in brackets, if the field is there. -/
def tagged (fields : List (String × Datum)) (name : String) : List String :=
  (Assoc.get? fields name).toList.map fun d => "[" ++ d.display ++ "]"

/-- The text of a field, if it is one. -/
def textField? (fields : List (String × Datum)) (name : String) : Option String :=
  match Assoc.get? fields name with
  | some (.scalar (.text s)) => some s
  | _ => none

/-- What follows the line: where the event comes from, and the failure it tells of. A failure known
or asked for is set off by a rule. -/
def trailer (fields : List (String × Datum)) : String :=
  let failure := (textField? fields "exception").map fun s => "\n" ++ s
  let asked := ((Assoc.get? fields "exc_info").getD .null).isNothing == false
  let rule := "\n\n" ++ String.ofList (List.replicate 79 '=') ++ "\n"
  let origin := (textField? fields "stack").map fun s =>
    "\n" ++ s ++ (if asked || failure.isSome then rule else "")
  origin.getD "" ++ failure.getD ""

/-- A text filled with spaces to a width. -/
def fill (width : Nat) (s : String) : String :=
  s ++ String.ofList (List.replicate (width - s.length) ' ')

/-- A text without the spaces at its end. -/
def trimEnd (s : String) : String :=
  String.ofList (s.toList.reverse.dropWhile (· == ' ')).reverse

/-- Parts that are not empty, one space apart. -/
def assemble (parts : List String) : String :=
  trimEnd (String.intercalate " " (parts.filter fun s => !s.isEmpty))

/-- Columns and fields as console text. -/
def columns (fields : List (String × Datum)) (middle : List String) : String :=
  assemble (unnamed fields ++ middle ++ tagged fields "logger_name" ++ fieldTexts fields) ++
    trailer fields

/-- Fields whose values console text does not show as they are. -/
def unshown : List String :=
  ["event", "exc_info", "exception", "level", "stack", "timestamp"]

/-- What follows the line has to be text. -/
def trailerFault? (fields : List (String × Datum)) : Option Fault :=
  ["stack", "exception"].findSome? fun name =>
    match Assoc.get? fields name with
    | none | some (.scalar .null) | some (.scalar (.text _)) => none
    | some d => some (.misuse (.notJoinable d.typeName))

/-- Why fields cannot be shown in console text: numbers come first, then what follows the line. -/
def consoleFault? (fields : List (String × Datum)) : Option Fault :=
  if fields.all fun entry => unshown.contains entry.1 || entry.2.isWritable then
    trailerFault? fields
  else some .unwritable

/-- The console text, or why there is none. The logger's name stands in for a field of that name. -/
def consoleLine (e : Event) (stamp : String) : Except Fault String :=
  let fields := e.outward.fields.filter fun entry => entry.1 != "logger"
  match consoleFault? fields with
  | some f => .error f
  | none => .ok (columns fields
      [stamp, "[" ++ e.level.label ++ "]", e.message, "[" ++ e.logger ++ "]"])

/-- The fields that are shown before any output was set up. -/
def bareFields (e : Event) : List (String × Datum) :=
  e.fields.filter fun entry => entry.1 != "stack_info"

/-- The console text before any output was set up: columns of fixed width, and a logger only if a
field names one. -/
def bareLine (e : Event) (stamp : String) : String :=
  columns e.bareFields
    ([stamp, "[" ++ fill 9 e.level.label ++ "]", fill 30 e.message] ++
      tagged e.bareFields "logger")

/-- Why there is no console text before any output was set up. -/
def bareFault? (e : Event) : Option Fault :=
  consoleFault? e.bareFields

/-- What is written where outputs were set up and there is none, or why there is nothing. -/
def lastResort (e : Event) (stamp : String) : Except Fault String :=
  if e.plain then .ok e.message
  else if (e.datum stamp).isWritable then .ok (e.datum stamp).literal
  else .error .unwritable

/-- What is shown of an event that could not be written. The steps that led there, which are shown
too, are left out. -/
def mishap (f : Fault) : String :=
  "--- Logging error ---\n" ++ f.message

end Event

end Retouch
