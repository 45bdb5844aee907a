import Retouch.Assoc
import Retouch.Datum
import Retouch.Numeral

/-!
# Reading JSON

`Json.parse?` reads one value with blanks around it and nothing else. Numbers may have a point or a
power of ten, and there are words for those that are not finite. A key that comes twice keeps its
first place and its last value. Every step consumes a character, so the length of the text bounds
the depth of the recursion.
-/

namespace Retouch.Json

/-- Characters that may stand between tokens. -/
def isBlank (c : Char) : Bool :=
  c == ' ' || c == '\t' || c == '\n' || c == '\r'

/-- Drops blanks in front. -/
def skip (cs : List Char) : List Char :=
  cs.dropWhile isBlank

/-- A number in base sixteen. -/
def hexNumber? (digits : List Char) : Option Nat :=
  digits.foldlM (fun n c => (Numeral.digit? c).map (16 * n + ·)) 0

/-- The character behind a backslash, for escapes of one character. -/
def escape? : Char → Option Char
  | '"' => some '"'
  | '\\' => some '\\'
  | '/' => some '/'
  | 'b' => some '\x08'
  | 'f' => some '\x0c'
  | 'n' => some '\n'
  | 'r' => some '\r'
  | 't' => some '\t'
  | _ => none

/-- A code point that stands for a character of its own. -/
def char? (code : Nat) : Option Char :=
  if code.isValidChar then some (Char.ofNat code) else none

/-- What a code of sixteen bits comes to: a character, or the first half of a pair, which waits for
the second half in `high`. -/
def unit? (high : Option Nat) (code : Nat) : Option (List Char × Option Nat) :=
  match high with
  | some top =>
    if 0xdc00 ≤ code ∧ code < 0xe000 then
      (char? (0x10000 + (top - 0xd800) * 0x400 + (code - 0xdc00))).map fun x => ([x], none)
    else none
  | none =>
    if 0xd800 ≤ code ∧ code < 0xdc00 then some ([], some code)
    else (char? code).map fun x => ([x], none)

/-- The rest of a string behind its opening quote, and what follows. -/
def string (written : List Char) (high : Option Nat) : List Char → Option (String × List Char)
  | [] => none
  | c :: rest =>
    if c = '\\' then
      match rest with
      | 'u' :: a :: b :: c :: d :: rest =>
        match (hexNumber? [a, b, c, d]).bind (unit? high) with
        | some (found, high) => string (found ++ written) high rest
        | none => none
      | c :: rest =>
        match escape? c, high with
        | some x, none => string (x :: written) none rest
        | _, _ => none
      | [] => none
    else if high.isSome ∨ c < ' ' then none
    else if c = '"' then some (String.ofList written.reverse, rest)
    else string (c :: written) none rest

/-- What follows a word in front of the text. -/
def word (w : String) (cs : List Char) : Option (List Char) :=
  if w.toList.isPrefixOf cs then some (cs.drop w.length) else none

/-- The digits of a whole number in front: zero stands alone. -/
def wholePart : List Char → List Char
  | '0' :: _ => ['0']
  | cs => cs.takeWhile Char.isDigit

/-- A point with digits behind it in front, if it is there. -/
def pointPart : List Char → List Char
  | '.' :: rest =>
    let digits := rest.takeWhile Char.isDigit
    if digits.isEmpty then [] else '.' :: digits
  | _ => []

/-- A power of ten in front, if it is there. -/
def powerPart : List Char → List Char
  | mark :: rest =>
    let (sign, behind) := match rest with
      | '-' :: behind => (['-'], behind)
      | '+' :: behind => (['+'], behind)
      | behind => ([], behind)
    let digits := behind.takeWhile Char.isDigit
    if (mark == 'e' || mark == 'E') && !digits.isEmpty then mark :: sign ++ digits else []
  | [] => []

/-- A number in front of the text, without its sign. A whole number has a limit to its digits. -/
def unsigned (negative : Bool) (cs : List Char) : Option (Scalar × List Char) :=
  match word "Infinity" cs with
  | some rest => some (.real (.infinite negative), rest)
  | none =>
    let whole := wholePart cs
    let rest := cs.drop whole.length
    let point := pointPart rest
    let power := powerPart (rest.drop point.length)
    let rest := rest.drop (point.length + power.length)
    if whole.isEmpty then none
    else if point.isEmpty && power.isEmpty then
      if Numeral.limit < whole.length then none
      else
        let n := Numeral.valueOf 10 whole
        some (.int (if negative then -(n : Int) else n), rest)
    else (Double.ofDigits? negative (whole ++ point ++ power)).map fun x => (.real x, rest)

/-- A number in front of the text. -/
def number : List Char → Option (Scalar × List Char)
  | '-' :: rest => unsigned true rest
  | cs => unsigned false cs

mutual

/-- A value in front of the text, and what follows. -/
def value : Nat → List Char → Option (Datum × List Char)
  | 0, _ => none
  | fuel + 1, cs =>
    match skip cs with
    | '\x7b' :: rest =>
      match skip rest with
      | '\x7d' :: rest => some (.mapping [], rest)
      | rest => entries fuel [] rest
    | '[' :: rest =>
      match skip rest with
      | ']' :: rest => some (.list [], rest)
      | rest => items fuel [] rest
    | '"' :: rest => (string [] none rest).map fun (s, rest) => (.text s, rest)
    | 'n' :: rest => (word "ull" rest).map fun rest => (.null, rest)
    | 't' :: rest => (word "rue" rest).map fun rest => (.bool true, rest)
    | 'f' :: rest => (word "alse" rest).map fun rest => (.bool false, rest)
    | 'N' :: rest => (word "aN" rest).map fun rest => (.scalar (.real .undefined), rest)
    | rest => (number rest).map fun (n, rest) => (.scalar n, rest)

/-- The rest of a list, up to its closing bracket. -/
def items : Nat → List Datum → List Char → Option (Datum × List Char)
  | 0, _, _ => none
  | fuel + 1, read, cs =>
    match value fuel cs with
    | none => none
    | some (d, rest) =>
      match skip rest with
      | ',' :: rest => items fuel (d :: read) rest
      | ']' :: rest => some (.list (d :: read).reverse, rest)
      | _ => none

/-- The rest of an object, up to its closing brace. -/
def entries : Nat → List (Scalar × Datum) → List Char → Option (Datum × List Char)
  | 0, _, _ => none
  | fuel + 1, read, cs =>
    match skip cs with
    | '"' :: rest =>
      match string [] none rest with
      | none => none
      | some (k, rest) =>
        match skip rest with
        | ':' :: rest =>
          match value fuel rest with
          | none => none
          | some (d, rest) =>
            let read := Assoc.insert read (.text k) d
            match skip rest with
            | ',' :: rest => entries fuel read rest
            | '\x7d' :: rest => some (.mapping read, rest)
            | _ => none
        | _ => none
    | _ => none

end

/-- The value a text holds. -/
def parse? (s : String) : Option Datum :=
  match value (2 * s.length + 2) s.toList with
  | some (d, rest) => if (skip rest).isEmpty then some d else none
  | none => none

end Retouch.Json
