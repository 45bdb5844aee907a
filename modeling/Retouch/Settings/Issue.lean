import Retouch.Datum

/-!
# What can be wrong with a setting

An issue is a place in the settings, a cause and the value found there. Each cause has a fixed tag
and a fixed wording.
-/

namespace Retouch

/-- One step on the way to a setting. -/
inductive Locator where
  | key (name : String)
  | index (i : Nat)
deriving DecidableEq, Repr, Inhabited

/-- The step as it is written. -/
def Locator.text : Locator → String
  | .key name => name
  | .index i => toString i

/-- Why a value is refused. -/
inductive IssueCause where
  | notText
  | notOneOf (choices : List String)
  | notBoolean
  | unclearBoolean
  | notList
  | notSection (name : String)
  | extra
  | custom (reason : String)
deriving DecidableEq, Repr, Inhabited

/-- A refused value and where it stands. -/
structure Issue where
  location : List Locator
  cause : IssueCause
  input : Datum
deriving Inhabited

namespace IssueCause

/-- Choices in quotes, the last one after "or". -/
def alternatives : List String → String
  | [] => ""
  | [a] => "'" ++ a ++ "'"
  | [a, b] => "'" ++ a ++ "' or '" ++ b ++ "'"
  | a :: rest => "'" ++ a ++ "', " ++ alternatives rest

/-- The short name of a cause. -/
def tag : IssueCause → String
  | .notText => "string_type"
  | .notOneOf _ => "literal_error"
  | .notBoolean => "bool_type"
  | .unclearBoolean => "bool_parsing"
  | .notList => "list_type"
  | .notSection _ => "model_type"
  | .extra => "extra_forbidden"
  | .custom _ => "value_error"

/-- The wording of a cause. -/
def message : IssueCause → String
  | .notText => "Input should be a valid string"
  | .notOneOf choices => "Input should be " ++ alternatives choices
  | .notBoolean => "Input should be a valid boolean"
  | .unclearBoolean => "Input should be a valid boolean, unable to interpret input"
  | .notList => "Input should be a valid list"
  | .notSection name => "Input should be a valid dictionary or instance of " ++ name
  | .extra => "Extra inputs are not permitted"
  | .custom reason => "Value error, " ++ reason

end IssueCause

/-- The place of an issue with its steps divided by points. -/
def Issue.path (issue : Issue) : String :=
  String.intercalate "." (issue.location.map Locator.text)

end Retouch
