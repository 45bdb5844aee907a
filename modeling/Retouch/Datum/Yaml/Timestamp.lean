import Retouch.Datum.Yaml.Cursor
import Retouch.Moment
import Retouch.Numeral

/-!
# Written days and times

A day is written as year, month and day between hyphens. A time may follow, behind blanks or the
letter T, and behind the time its offset. What is written need not exist: `parse?` reads the form
only.
-/

namespace Retouch.Yaml.Timestamp

/-- Exactly so many digits in front, as a number. -/
def exactly (n : Nat) (cs : List Char) : Option (Nat × List Char) :=
  let digits := cs.take n
  if digits.length = n ∧ digits.all Char.isDigit then
    some (Numeral.valueOf 10 digits, cs.drop n)
  else none

/-- One digit in front or two, as a number. -/
def oneOrTwo (cs : List Char) : Option (Nat × List Char) :=
  (exactly 2 cs).or (exactly 1 cs)

/-- What follows a character in front. -/
def after (c : Char) : List Char → Option (List Char)
  | d :: rest => if d = c then some rest else none
  | [] => none

/-- The offset in minutes behind a time: nothing, the letter Z, or hours and perhaps minutes with a
sign. -/
def offset? (cs : List Char) : Option (Option Int) :=
  if cs.isEmpty then some none
  else
    match cs.dropWhile isGap with
    | ['Z'] => some (some 0)
    | sign :: rest =>
      if sign = '-' ∨ sign = '+' then
        match oneOrTwo rest with
        | none => none
        | some (hours, rest) =>
          let minutes := if rest.isEmpty then some (0, []) else (after ':' rest).bind (exactly 2)
          match minutes with
          | some (minutes, []) =>
            let total : Int := hours * 60 + minutes
            some (some (if sign = '-' then -total else total))
          | _ => none
      else none
    | [] => none

/-- The millionths of a second in the digits behind a point, of which six count. -/
def micros (digits : List Char) : Nat :=
  let kept := digits.take 6
  Numeral.valueOf 10 (kept ++ List.replicate (6 - kept.length) '0')

/-- A time of the day and its offset, and nothing behind them. -/
def clock? (cs : List Char) : Option (Clock × Option Int) := do
  let (hour, rest) ← oneOrTwo cs
  let (minute, rest) ← (after ':' rest).bind (exactly 2)
  let (second, rest) ← (after ':' rest).bind (exactly 2)
  let (fraction, rest) := match rest with
    | '.' :: rest => (rest.takeWhile Char.isDigit, rest.dropWhile Char.isDigit)
    | rest => ([], rest)
  let offset ← offset? rest
  return (⟨hour, minute, second, micros fraction⟩, offset)

/-- What follows the gap between a day and a time. -/
def behindDay : List Char → Option (List Char)
  | 'T' :: rest => some rest
  | 't' :: rest => some rest
  | cs => if (cs.takeWhile isGap).isEmpty then none else some (cs.dropWhile isGap)

/-- The day or time a text is in form. -/
def parse? (cs : List Char) : Option Moment := do
  let (year, rest) ← exactly 4 cs
  let (month, rest) ← (after '-' rest).bind oneOrTwo
  let (day, rest) ← (after '-' rest).bind oneOrTwo
  if rest.isEmpty then return .day ⟨year, month, day⟩
  else
    let (time, offset) ← (behindDay rest).bind clock?
    return .time ⟨year, month, day⟩ time offset

/-- Whether a text without marks is taken for a day or a time. A day alone has all its digits. -/
def isPlain (cs : List Char) : Bool :=
  match parse? cs with
  | some (.day _) => cs.length == 10
  | some (.time _ _ _) => true
  | none => false

end Retouch.Yaml.Timestamp
