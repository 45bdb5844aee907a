import Retouch.Datum.Literal

/-!
# Error reports

What is told about an error that callers are expected to tell apart: a code with a short name, a
wording, and details. The parts of a report are plain data, which the wording shows and the details
keep as they are.
-/

namespace Retouch

/-- What a report is about. -/
inductive ErrorCode where
  | unsupportedInput
  | kindMismatch
  | unreadableConfig
  | invalidSetting
  | syntaxError
  | unsupportedLanguage
  | duplicateMethod
  | emptyCollection
  | multipleRoots
deriving DecidableEq, Repr, Inhabited

namespace ErrorCode

/-- The number: the thousands give the area the error belongs to. -/
def number : ErrorCode → Nat
  | .unsupportedInput => 1001
  | .kindMismatch => 1002
  | .unreadableConfig => 2001
  | .invalidSetting => 2002
  | .syntaxError => 3001
  | .unsupportedLanguage => 3002
  | .duplicateMethod => 4001
  | .emptyCollection => 5001
  | .multipleRoots => 5002

/-- The short name. -/
def label : ErrorCode → String
  | .unsupportedInput => "INPUT_UNSUPPORTED"
  | .kindMismatch => "INPUT_KIND_MISMATCH"
  | .unreadableConfig => "CONFIG_PARSE_ERROR"
  | .invalidSetting => "CONFIG_INVALID_VALUE"
  | .syntaxError => "PARSE_SYNTAX_ERROR"
  | .unsupportedLanguage => "PARSE_UNSUPPORTED_LANGUAGE"
  | .duplicateMethod => "METHOD_DUPLICATE"
  | .emptyCollection => "PRINT_EMPTY_COLLECTION"
  | .multipleRoots => "PRINT_MULTIPLE_ROOTS"

end ErrorCode

/-- A code, a wording, and what the error is about, by name. -/
structure Report where
  code : ErrorCode
  text : String
  details : List (String × Datum)
deriving Inhabited

namespace Report

/-- Number, short name and wording in one line. -/
def message (r : Report) : String :=
  "[" ++ toString r.code.number ++ "] " ++ r.code.label ++ ": " ++ r.text

/-- A value is of a kind that cannot be worked on. -/
def unsupportedInput (kind : String) : Report :=
  ⟨.unsupportedInput,
    "Unsupported input kind: " ++ kind ++
      ". Expected source text, a node, a path, or a list of nodes or paths",
    [("kind", .text kind)]⟩

/-- A collection of one kind was to hold a node of another. -/
def kindMismatch (expected actual : Datum) : Report :=
  ⟨.kindMismatch,
    "Collection of kind '" ++ expected.display ++ "' cannot hold a '" ++ actual.display ++ "' node",
    [("expected", expected), ("actual", actual)]⟩

/-- A settings file cannot be read as settings. -/
def unreadableConfig (path reason : Datum) : Report :=
  ⟨.unreadableConfig,
    "Failed to parse config at " ++ path.display ++ ": " ++ reason.display,
    [("path", path), ("reason", reason)]⟩

/-- A setting has a value it cannot have; the details show the value in words. -/
def invalidSetting (field value reason : Datum) : Report :=
  ⟨.invalidSetting,
    "Invalid value for '" ++ field.display ++ "': " ++ reason.display,
    [("field", field), ("value", .text value.display), ("reason", reason)]⟩

/-- A text does not follow the rules of its language. -/
def syntaxError (language line column kind : Datum) : Report :=
  ⟨.syntaxError,
    "Syntax error in " ++ language.display ++ " source at line " ++ line.display ++ ", column " ++
      column.display,
    [("language", language), ("line", line), ("column", column), ("node_type", kind)]⟩

/-- A language is not known, or its grammar cannot be loaded; a package that would bring it is
named if there is one. -/
def unsupportedLanguage (language package : Datum) : Report :=
  let known := "Language not available: " ++ language.display
  if package.isNothing then ⟨.unsupportedLanguage, known, [("language", language)]⟩
  else
    ⟨.unsupportedLanguage, known ++ " (install " ++ package.display ++ ")",
      [("language", language), ("package", package)]⟩

/-- A method cannot be installed under its name. -/
def duplicateMethod (name kind : Datum) : Report :=
  ⟨.duplicateMethod,
    "There is already a method named '" ++ name.display ++ "' for " ++
      (if kind.isNothing then "all collections" else "type '" ++ kind.display ++ "'"),
    [("name", name), ("node_type", kind)]⟩

/-- There is nothing to print. -/
def emptyCollection : Report :=
  ⟨.emptyCollection, "Cannot print an empty collection that has no parent collection", []⟩

/-- There is more than one tree to print. -/
def multipleRoots (count : Datum) : Report :=
  ⟨.multipleRoots,
    "Collection elements belong to " ++ count.display ++ " different trees; expected one",
    [("roots", count)]⟩

end Report

end Retouch
