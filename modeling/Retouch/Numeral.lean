/-!
# Whole numbers in a base

Reading a whole number: a sign may stand in front, and so may the mark of the base. Decimal numbers
have a limit to their digits, both where they are read and where they are written; numbers in the
other bases have none.
-/

namespace Retouch

/-- Why a text is no whole number. -/
inductive NumeralFault where
  | malformed (base : Nat) (text : String)
  | tooLong (digits : Nat)
deriving DecidableEq, Repr, Inhabited

namespace Numeral

/-- So many decimal digits are read and written at most. -/
def limit : Nat := 4300

/-- The value of a digit. -/
def digit? (c : Char) : Option Nat :=
  if '0' ≤ c ∧ c ≤ '9' then some (c.toNat - '0'.toNat)
  else if 'a' ≤ c ∧ c ≤ 'f' then some (c.toNat - 'a'.toNat + 10)
  else if 'A' ≤ c ∧ c ≤ 'F' then some (c.toNat - 'A'.toNat + 10)
  else none

/-- Whether a character is a digit of a base. -/
def isDigit (base : Nat) (c : Char) : Bool :=
  match digit? c with
  | some d => d < base
  | none => false

/-- The number that digits stand for. -/
def valueOf (base : Nat) (digits : List Char) : Nat :=
  digits.foldl (fun n c => base * n + (digit? c).getD 0) 0

/-- The digits behind the mark of the base, if it is there. -/
def unmarked (base : Nat) : List Char → List Char
  | '0' :: c :: rest =>
    if (base, c.toLower) ∈ [(2, 'b'), (8, 'o'), (16, 'x')] then rest else '0' :: c :: rest
  | digits => digits

/-- Whether a number has more decimal digits than are written. -/
def isTooLong (n : Nat) : Bool :=
  decide (Nat.pow 10 limit ≤ n)

/-- The whole number a text is. -/
def read (base : Nat) (text : String) : Except NumeralFault Int :=
  let (negative, rest) := match text.toList with
    | '-' :: rest => (true, rest)
    | '+' :: rest => (false, rest)
    | rest => (false, rest)
  let digits := unmarked base rest
  let leading := (digits.takeWhile (isDigit base)).length
  if base = 10 ∧ limit < leading then .error (.tooLong leading)
  else if digits.isEmpty ∨ leading < digits.length then .error (.malformed base text)
  else
    let n := valueOf base digits
    .ok (if negative then -(n : Int) else n)

end Numeral

end Retouch
