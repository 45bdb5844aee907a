import Retouch.Numeral
import Retouch.Report
import Retouch.Settings.Issue
import Retouch.Signature
import Retouch.Word

/-!
# Faults

Everything that can go wrong, by cause. A `ToolError` is told in a report; the other faults have a
wording only, and all those wordings stand in this module.
-/

namespace Retouch

/-- Errors that callers are expected to tell apart by code. -/
inductive ToolError where
  | unsupportedInput (kind : String)
  | kindMismatch (expected : Datum) (actual : String)
  | unreadableConfig (path reason : String)
  | invalidSetting (field : String) (value : Datum) (reason : String)
  | syntaxError (language : String) (line column : Nat) (kind : String)
  | unsupportedLanguage (language : String) (package : Option String)
  | duplicateMethod (name : String) (kind : Option String)
  | emptyCollection
  | multipleRoots (count : Nat)
deriving Inhabited

/-- What is told about an error. -/
def ToolError.report : ToolError → Report
  | .unsupportedInput kind => .unsupportedInput kind
  | .kindMismatch expected actual => .kindMismatch expected (.text actual)
  | .unreadableConfig path reason => .unreadableConfig (.text path) (.text reason)
  | .invalidSetting field value reason => .invalidSetting (.text field) value (.text reason)
  | .syntaxError language line column kind =>
    .syntaxError (.text language) (.int line) (.int column) (.text kind)
  | .unsupportedLanguage language package =>
    .unsupportedLanguage (.text language) (.ofText? package)
  | .duplicateMethod name kind => .duplicateMethod (.text name) (.ofText? kind)
  | .emptyCollection => .emptyCollection
  | .multipleRoots count => .multipleRoots (.int count)

/-- Why an operation failed. -/
inductive Fault where
  | tool (error : ToolError)
  /-- A path was given a parent without a slot or a slot without a parent. -/
  | slotWithoutParent
  /-- The parent's slot does not hold the node of the new path. -/
  | notHeld (kind : String) (slot : Int)
  | noChild (kind : String) (index : Int)
  /-- A root path was to be replaced by none or several nodes. -/
  | rootNeedsOne
  /-- The path has a parent and no slot in it. -/
  | noSlot (kind : String)
  /-- The path's slot holds another node by now. -/
  | detached (kind : String) (slot : Int)
  | slotOutOfRange
  | elementOutOfRange
  | noSuchChild
  /-- A position that no machine word can hold. -/
  | positionTooLarge
  /-- A place to insert at that no machine word can hold. -/
  | placeTooLarge
  | zeroStep
  /-- Names that start with an underscore are never looked up. -/
  | hiddenName (name : String)
  | noMethod (kind : Datum) (name : String)
  | noAttribute (typeName name : String)
  /-- The attribute is worked out and cannot be set. -/
  | noSetter (typeName name : String)
  | noDeleter (typeName name : String)
  /-- The value cannot be changed. -/
  | frozen (name : String)
  | noKey (key : Datum)
  | characterOutOfRange
  /-- A slice cuts a character. -/
  | undecodable
  /-- A former child lost its span. -/
  | missingSpan
  /-- The nodes form a cycle. -/
  | endless
  /-- Collections lie too deep inside each other. -/
  | tooDeep
  /-- The grammar has no tree for the text. -/
  | noTree
  /-- The home directory of a user is not known. -/
  | homeless
  | directory (path : String)
  /-- A directory was to be made where a file is. -/
  | fileInTheWay (path : String)
  /-- A file stands where the way goes on. -/
  | notDirectory (path : String)
  | noSuchFile (path : String)
  | nameTooLong (path : String)
  /-- A path with a null character in it. -/
  | nullInPath
  | keyNotText
  /-- A whole number that cannot be read. -/
  | numeral (fault : NumeralFault)
  /-- A number with a point that cannot be read. -/
  | malformedReal (text : String)
  /-- A whole number with more digits than are written. -/
  | unwritable
  /-- A day or a time that does not exist. -/
  | calendar (fault : CalendarFault)
  /-- A code that no character has. -/
  | noCharacter (code : Nat)
  /-- An environment value that should be JSON is not. -/
  | malformedVariable (area : String)
  | invalid (issues : List Issue)
  | misuse (problem : Misuse)
  /-- An error of the caller's own code, by kind and wording. -/
  | raised (label message : String)
deriving Inhabited

namespace Fault

/-- The wording of a fault. -/
def message : Fault → String
  | .tool e => e.report.message
  | .slotWithoutParent => "parent and name must be given together"
  | .notHeld kind slot => kind ++ " does not hold the given node at slot " ++ toString slot
  | .noChild kind index => kind ++ " has no child at index " ++ toString index
  | .rootNeedsOne => "a root path must be replaced by exactly one node"
  | .noSlot kind => "path to " ++ kind ++ " has no slot in its parent"
  | .detached kind slot => "path to " ++ kind ++ " is no longer attached at slot " ++ toString slot
  | .slotOutOfRange => "list index out of range"
  | .elementOutOfRange => "tuple index out of range"
  | .noSuchChild => "list assignment index out of range"
  | .positionTooLarge => "cannot fit 'int' into an index-sized integer"
  | .placeTooLarge => "Python int too large to convert to C ssize_t"
  | .zeroStep => "slice step cannot be zero"
  | .hiddenName name => name
  | .noMethod kind name =>
    "'Collection' of kind '" ++ kind.display ++ "' has no method '" ++ name ++ "'"
  | .noAttribute typeName name =>
    "'" ++ typeName ++ "' object has no attribute '" ++ name ++ "'"
  | .noSetter typeName name =>
    "property '" ++ name ++ "' of '" ++ typeName ++ "' object has no setter"
  | .noDeleter typeName name =>
    "property '" ++ name ++ "' of '" ++ typeName ++ "' object has no deleter"
  | .frozen name => "cannot assign to field " ++ Text.quoted name
  | .noKey key => key.literal
  | .characterOutOfRange => "string index out of range"
  | .undecodable => ""
  | .missingSpan => ""
  | .endless => "the tree contains itself"
  | .tooDeep => "maximum recursion depth exceeded"
  | .noTree => ""
  | .homeless => "Could not determine home directory."
  | .directory path => "[Errno 21] Is a directory: " ++ Text.quoted path
  | .fileInTheWay path => "[Errno 17] File exists: " ++ Text.quoted path
  | .notDirectory path => "[Errno 20] Not a directory: " ++ Text.quoted path
  | .noSuchFile path => "[Errno 2] No such file or directory: " ++ Text.quoted path
  | .nameTooLong path => "[Errno 36] File name too long: " ++ Text.quoted path
  | .nullInPath => "embedded null byte"
  | .keyNotText => "keywords must be strings"
  | .numeral (.malformed base text) =>
    "invalid literal for int() with base " ++ toString base ++ ": " ++ Text.quoted text
  | .numeral (.tooLong digits) => tooLong (": value has " ++ toString digits ++ " digits")
  | .malformedReal text => "could not convert string to float: " ++ Text.quoted text
  | .unwritable => tooLong ""
  | .calendar fault => fault.message
  | .noCharacter code =>
    if Word.isHalf code then "chr() arg not in range(0x110000)"
    else "Python int too large to convert to C int"
  | .malformedVariable area => "error parsing value for field \"" ++ area ++ "\""
  | .invalid issues =>
    String.intercalate "\n" (issues.map fun i => i.path ++ ": " ++ i.cause.message)
  | .misuse problem => problem.message
  | .raised _ message => message
where
  /-- Too many digits, with a remark on how many. -/
  tooLong (remark : String) : String :=
    "Exceeds the limit (" ++ toString Numeral.limit ++ " digits) for integer string conversion" ++
      remark ++ "; use sys.set_int_max_str_digits() to increase the limit"

/-- Whether an attribute was asked for that is not there. -/
def isLack : Fault → Bool
  | .hiddenName _ | .noMethod _ _ | .noAttribute _ _ => true
  | _ => false

/-- The fault of a position that a sequence does not have. -/
def outside (slot : Int) (fault : Fault) : Fault :=
  if Word.holds slot then fault else .positionTooLarge

end Fault

end Retouch
