/-!
# Numbers with 53 binary digits

A finite number is a mantissa times a power of two. The mantissa has 53 binary digits, or fewer
where the exponent is the least one, so that every value has one form and only zero has a sign of
its own. All arithmetic is exact and rounded once, to the nearest number and from the middle to the
even one. `text` writes the fewest decimal digits that read back.
-/

namespace Retouch

/-- A number with 53 binary digits, an infinity, or no number. -/
inductive Double where
  | finite (negative : Bool) (mantissa : Nat) (exponent : Int)
  | infinite (negative : Bool)
  | undefined
deriving DecidableEq, Repr, Inhabited

namespace Double

/-- A power of two. -/
def twoTo (n : Nat) : Nat := Nat.pow 2 n

/-- A power of ten. -/
def tenTo (n : Nat) : Nat := Nat.pow 10 n

/-- The exponent of the smallest numbers. -/
def leastExponent : Int := -1074

/-- The exponent of the largest numbers. -/
def mostExponent : Int := 971

/-- Zero. -/
def zero (negative : Bool) : Double := .finite negative 0 leastExponent

/-- A quotient rounded to the nearest whole number, from the middle to the even one. -/
def nearest (num den : Nat) : Nat :=
  let floor := num / den
  match compare (2 * (num % den)) den with
  | .lt => floor
  | .gt => floor + 1
  | .eq => if floor % 2 = 0 then floor else floor + 1

/-- The quotient of two numbers by a power of two, as a numerator and a denominator. -/
def scaled (num den : Nat) (exponent : Int) : Nat × Nat :=
  (num * twoTo (-exponent).toNat, den * twoTo exponent.toNat)

/-- The exponent that leaves 53 binary digits in front of the point of a quotient. -/
def exponentFor (num den : Nat) : Int :=
  let guess : Int := (num.log2 : Int) - den.log2 - 52
  let (a, b) := scaled num den guess
  max leastExponent (if a < b * twoTo 52 then guess - 1 else guess)

/-- The number nearest to a quotient. -/
def ofRatio (negative : Bool) (num den : Nat) : Double :=
  if num = 0 then zero negative
  else
    let exponent := exponentFor num den
    let (a, b) := scaled num den exponent
    let mantissa := nearest a b
    let (mantissa, exponent) :=
      if mantissa = twoTo 53 then (twoTo 52, exponent + 1) else (mantissa, exponent)
    if mantissa = 0 then zero negative
    else if mostExponent < exponent then .infinite negative
    else .finite negative mantissa exponent

/-- The number nearest to a decimal. What is far too large or too small is not worked out. -/
def ofDecimal (negative : Bool) (digits : Nat) (exponent : Int) : Double :=
  let size : Int := (Nat.toDigits 10 digits).length
  if digits = 0 then zero negative
  else if 400 < exponent + size then .infinite negative
  else if exponent + size < -400 then zero negative
  else ofRatio negative (digits * tenTo exponent.toNat) (tenTo (-exponent).toNat)

/-- The number with the other sign. -/
def neg : Double → Double
  | .finite negative mantissa exponent => .finite (!negative) mantissa exponent
  | .infinite negative => .infinite !negative
  | .undefined => .undefined

/-- A mantissa with its sign. -/
def signed (negative : Bool) (mantissa : Nat) : Int :=
  if negative then -(mantissa : Int) else mantissa

/-- The product with a whole number that is not negative. -/
def scale (x : Double) (n : Nat) : Double :=
  match x with
  | .finite negative mantissa exponent =>
    ofRatio negative (mantissa * n * twoTo exponent.toNat) (twoTo (-exponent).toNat)
  | x => x

/-- The sum of two numbers. -/
def add : Double → Double → Double
  | .finite s m p, .finite t n q =>
    let low := min p q
    let sum := signed s m * twoTo (p - low).toNat + signed t n * twoTo (q - low).toNat
    if sum = 0 then zero (s && t)
    else ofRatio (decide (sum < 0)) (sum.natAbs * twoTo low.toNat) (twoTo (-low).toNat)
  | .infinite s, .infinite t => if s = t then .infinite s else .undefined
  | .infinite s, .finite _ _ _ | .finite _ _ _, .infinite s => .infinite s
  | .undefined, _ | _, .undefined => .undefined

/-- The whole number that a number is, if it is one. -/
def integer? : Double → Option Int
  | .finite negative mantissa exponent =>
    let (num, den) := scaled mantissa 1 (-exponent)
    if num % den = 0 then some (signed negative (num / den)) else none
  | _ => none

/-- Whether a number is zero, with either sign. -/
def isZero : Double → Bool
  | .finite _ mantissa _ => mantissa == 0
  | _ => false

/-! ## Decimal digits -/

/-- How many decimal digits stand in front of the point of a quotient; a quotient below one tenth
has a negative count. -/
def magnitude (num den : Nat) : Int :=
  if den ≤ num then ((Nat.toDigits 10 (num / den)).length : Int)
  else
    match (List.range 400).find? fun j => den ≤ num * tenTo (j + 1) with
    | some j => -(j : Int)
    | none => -400

/-- Digits and the power of ten they are counted in, if they read back: of the two neighbours on the
grid the nearer one that does. -/
def onGrid (mantissa : Nat) (exponent : Int) (grid : Int) : Option (Nat × Int) :=
  let (num, den) := scaled mantissa 1 (-exponent)
  let a := num * tenTo (-grid).toNat
  let b := den * tenTo grid.toNat
  let floor := a / b
  let readsBack (digits : Nat) : Bool :=
    ofDecimal false digits grid == .finite false mantissa exponent
  let preferred := nearest a b
  let other := if preferred = floor then floor + 1 else floor
  if readsBack preferred then some (preferred, grid)
  else if readsBack other then some (other, grid)
  else none

/-- The fewest digits that read back, and the power of ten they are counted in. Seventeen always
do. -/
def shortest (mantissa : Nat) (exponent : Int) : Nat × Int :=
  let (num, den) := scaled mantissa 1 (-exponent)
  let size := magnitude num den
  ((List.range 17).findSome? fun n => onGrid mantissa exponent (size - (n + 1 : Nat))).getD
    (nearest (num * tenTo (17 - size).toNat) (den * tenTo (size - 17).toNat), size - 17)

/-- Digits with the point at a place counted from their start. From sixteen digits in front of the
point and from four zeros behind it on, the point stands behind the first digit and a power of ten
follows, signed and of two digits at least. -/
def laidOut (digits : List Char) (point : Int) : String :=
  let zeros (n : Int) : List Char := List.replicate n.toNat '0'
  if -4 < point ∧ point ≤ 16 then
    if point ≤ 0 then String.ofList ('0' :: '.' :: zeros (-point) ++ digits)
    else
      let whole := digits.take point.toNat ++ zeros (point - digits.length)
      let part := digits.drop point.toNat
      String.ofList (whole ++ '.' :: if part.isEmpty then ['0'] else part)
  else
    let part := digits.drop 1
    let power := (Nat.toDigits 10 (point - 1).natAbs)
    String.ofList (digits.take 1 ++ (if part.isEmpty then [] else '.' :: part) ++
      'e' :: (if point < 1 then '-' else '+') :: zeros (2 - power.length) ++ power)

/-- A number for readers. -/
def text : Double → String
  | .undefined => "nan"
  | .infinite negative => if negative then "-inf" else "inf"
  | .finite negative mantissa exponent =>
    let sign := if negative then "-" else ""
    if mantissa = 0 then sign ++ "0.0"
    else
      let (digits, grid) := shortest mantissa exponent
      let written := Nat.toDigits 10 digits
      let kept := (written.reverse.dropWhile (· == '0')).reverse
      sign ++ laidOut kept (grid + written.length)

/-! ## Reading -/

/-- The number that digits stand for. -/
def naturalOf (digits : List Char) : Nat :=
  digits.foldl (fun n c => 10 * n + (c.toNat - '0'.toNat)) 0

/-- A power of ten behind a number: nothing, or a mark, perhaps a sign, and digits. -/
def powerOf? : List Char → Option Int
  | [] => some 0
  | mark :: rest =>
    let (negative, digits) := match rest with
      | '-' :: digits => (true, digits)
      | '+' :: digits => (false, digits)
      | digits => (false, digits)
    if mark.toLower = 'e' ∧ digits ≠ [] ∧ digits.all Char.isDigit then
      some (signed negative (naturalOf digits))
    else none

/-- The number a decimal text stands for, with digits in front of the point or behind it, and
perhaps a power of ten. -/
def ofDigits? (negative : Bool) (cs : List Char) : Option Double :=
  let whole := cs.takeWhile Char.isDigit
  let (part, rest) := match cs.dropWhile Char.isDigit with
    | '.' :: rest => (rest.takeWhile Char.isDigit, rest.dropWhile Char.isDigit)
    | rest => ([], rest)
  if whole.isEmpty && part.isEmpty then none
  else (powerOf? rest).map fun power =>
    ofDecimal negative (naturalOf (whole ++ part)) (power - part.length)

end Double

end Retouch
