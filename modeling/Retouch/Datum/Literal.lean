import Retouch.Datum
import Retouch.Numeral
import Retouch.Text.Quoted

/-!
# Written forms of data

`Datum.literal` writes a value for readers, and `Datum.display` does the same but leaves a text, a
day or a time as it is. `Datum.json` writes a value as JSON on one line in ASCII, where days and
times are the texts for readers, and `Datum.wideJson` as JSON with every character that JSON does
not make special.
-/

namespace Retouch

/-- A scalar for readers. -/
def Scalar.literal : Scalar → String
  | .null => "None"
  | .bool true => "True"
  | .bool false => "False"
  | .int n => toString n
  | .real x => x.text
  | .moment m => m.literal
  | .text s => Text.quoted s

/-- Whether a scalar can be written: a whole number may have too many digits. -/
def Scalar.isWritable : Scalar → Bool
  | .int n => !Numeral.isTooLong n.natAbs
  | _ => true

/-- A scalar as JSON, texts being quoted in a given way. -/
def Scalar.jsonBy (quote : String → String) : Scalar → String
  | .null => "null"
  | .bool true => "true"
  | .bool false => "false"
  | .int n => toString n
  | .real .undefined => "NaN"
  | .real (.infinite negative) => if negative then "-Infinity" else "Infinity"
  | .real x => x.text
  | .moment m => quote m.literal
  | .text s => quote s

/-- A scalar as JSON. -/
def Scalar.json : Scalar → String :=
  Scalar.jsonBy Text.jsonQuoted

/-- A scalar as the key of a JSON object, which is always a string. -/
def Scalar.jsonKeyBy (quote : String → String) : Scalar → String
  | .text s => quote s
  | .moment m => quote m.literal
  | other => quote (other.jsonBy quote)

namespace Datum

mutual

/-- A value for readers. -/
def literal : Datum → String
  | .scalar s => s.literal
  | .list items => "[" ++ String.intercalate ", " (literals items) ++ "]"
  | .mapping entries => "\x7b" ++ String.intercalate ", " (entryLiterals entries) ++ "\x7d"

/-- The items of a list for readers. -/
def literals : List Datum → List String
  | [] => []
  | d :: rest => literal d :: literals rest

/-- The entries of a mapping for readers. -/
def entryLiterals : List (Scalar × Datum) → List String
  | [] => []
  | (k, d) :: rest => (k.literal ++ ": " ++ literal d) :: entryLiterals rest

end

mutual

/-- A value as JSON, texts being quoted in a given way. -/
def jsonBy (quote : String → String) : Datum → String
  | .scalar s => s.jsonBy quote
  | .list items => "[" ++ String.intercalate ", " (jsonsBy quote items) ++ "]"
  | .mapping entries =>
    "\x7b" ++ String.intercalate ", " (entryJsonsBy quote entries) ++ "\x7d"

/-- The items of a list as JSON. -/
def jsonsBy (quote : String → String) : List Datum → List String
  | [] => []
  | d :: rest => jsonBy quote d :: jsonsBy quote rest

/-- The entries of a mapping as JSON. -/
def entryJsonsBy (quote : String → String) : List (Scalar × Datum) → List String
  | [] => []
  | (k, d) :: rest => (k.jsonKeyBy quote ++ ": " ++ jsonBy quote d) :: entryJsonsBy quote rest

end

/-- A value as JSON. -/
def json : Datum → String :=
  jsonBy Text.jsonQuoted

/-- A value as JSON with characters beyond ASCII in it. -/
def wideJson : Datum → String :=
  jsonBy Text.wideJsonQuoted

/-- A value for readers, a text, a day or a time standing for itself. -/
def display : Datum → String
  | .scalar (.text s) => s
  | .scalar (.moment m) => m.text
  | d => d.literal

mutual

/-- Whether a value can be written: no whole number in it has too many digits. -/
def isWritable : Datum → Bool
  | .scalar s => s.isWritable
  | .list items => areWritable items
  | .mapping entries => areWritableEntries entries

/-- Whether items can be written. -/
def areWritable : List Datum → Bool
  | [] => true
  | d :: rest => isWritable d && areWritable rest

/-- Whether entries can be written. -/
def areWritableEntries : List (Scalar × Datum) → Bool
  | [] => true
  | (k, d) :: rest => k.isWritable && isWritable d && areWritableEntries rest

end

end Datum

end Retouch
