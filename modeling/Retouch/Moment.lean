/-!
# Days and times

A day of the calendar, alone or with a time of the day and how far that time is ahead of the common
one. Only days and times that exist are made, and of several things wrong with one the first is
told.
-/

namespace Retouch

/-- A day of the calendar. -/
structure Day where
  year : Nat
  month : Nat
  day : Nat
deriving DecidableEq, Repr, Inhabited

/-- A time of the day, down to the millionth of a second. -/
structure Clock where
  hour : Nat
  minute : Nat
  second : Nat
  micro : Nat
deriving DecidableEq, Repr, Inhabited

/-- A day, or a time on a day, with its offset in minutes where that is known. -/
inductive Moment where
  | day (d : Day)
  | time (d : Day) (t : Clock) (offset : Option Int)
deriving DecidableEq, Repr, Inhabited

/-- Why a day or a time does not exist. -/
inductive CalendarFault where
  | year
  | month
  | day
  | hour
  | minute
  | second
  /-- The offset is a day or more. -/
  | offset (minutes : Int)
deriving DecidableEq, Repr, Inhabited

namespace Day

/-- Whether a year has a day more. -/
def isLeap (year : Nat) : Bool :=
  year % 4 == 0 && (year % 100 != 0 || year % 400 == 0)

/-- How many days a month has. -/
def lengthOf (year month : Nat) : Nat :=
  if month = 2 then (if isLeap year then 29 else 28)
  else if [4, 6, 9, 11].contains month then 30
  else 31

/-- How many days of the calendar have come up to this one. -/
def count (d : Day) : Nat :=
  let years := d.year - 1
  let months := (List.range (d.month - 1)).map fun m => lengthOf d.year (m + 1)
  years * 365 + years / 4 - years / 100 + years / 400 + months.foldr (· + ·) 0 + d.day

/-- What is wrong with a day. -/
def fault? (d : Day) : Option CalendarFault :=
  if d.year = 0 then some .year
  else if d.month = 0 ∨ 12 < d.month then some .month
  else if d.day = 0 ∨ lengthOf d.year d.month < d.day then some .day
  else none

end Day

/-- What is wrong with a time. -/
def Clock.fault? (t : Clock) : Option CalendarFault :=
  if 23 < t.hour then some .hour
  else if 59 < t.minute then some .minute
  else if 59 < t.second then some .second
  else none

namespace Moment

/-- A number with zeros in front, to a given width. -/
def padded (width n : Nat) : String :=
  let digits := Nat.toDigits 10 n
  String.ofList (List.replicate (width - digits.length) '0' ++ digits)

/-- A stretch of minutes as days and seconds, for readers. Only the days can be negative. -/
def stretch (minutes : Int) : String :=
  let days := minutes.fdiv 1440
  let seconds := minutes.fmod 1440 * 60
  let parts := (if days = 0 then [] else ["days=" ++ toString days]) ++
    (if seconds = 0 then [] else ["seconds=" ++ toString seconds])
  "datetime.timedelta(" ++ String.intercalate ", " parts ++ ")"

/-- What is wrong with a day or a time: an offset is looked at first, then the day. -/
def fault? : Moment → Option CalendarFault
  | .day d => d.fault?
  | .time d t offset =>
    match offset with
    | some minutes =>
      if 1440 ≤ minutes.natAbs then some (.offset minutes) else d.fault?.or t.fault?
    | none => d.fault?.or t.fault?

/-- The text of a day. -/
def dayText (d : Day) : String :=
  padded 4 d.year ++ "-" ++ padded 2 d.month ++ "-" ++ padded 2 d.day

/-- The text of an offset. -/
def offsetText (minutes : Int) : String :=
  (if minutes < 0 then "-" else "+") ++ padded 2 (minutes.natAbs / 60) ++ ":" ++
    padded 2 (minutes.natAbs % 60)

/-- The text of a day or a time. -/
def text : Moment → String
  | .day d => dayText d
  | .time d t offset =>
    dayText d ++ " " ++ padded 2 t.hour ++ ":" ++ padded 2 t.minute ++ ":" ++ padded 2 t.second ++
      (if t.micro = 0 then "" else "." ++ padded 6 t.micro) ++
      (match offset with
        | some minutes => offsetText minutes
        | none => "")

/-- A day or a time for readers who look for its parts. Seconds are left out where nothing but
zeros would follow. -/
def literal : Moment → String
  | .day d => "datetime.date(" ++ numbers [d.year, d.month, d.day] ++ ")"
  | .time d t offset =>
    let finer :=
      if t.micro ≠ 0 then [t.second, t.micro] else if t.second ≠ 0 then [t.second] else []
    "datetime.datetime(" ++ numbers ([d.year, d.month, d.day, t.hour, t.minute] ++ finer) ++
      (match offset with
        | some 0 => ", tzinfo=datetime.timezone.utc"
        | some minutes => ", tzinfo=datetime.timezone(" ++ stretch minutes ++ ")"
        | none => "") ++ ")"
where
  numbers (ns : List Nat) : String := String.intercalate ", " (ns.map toString)

end Moment

/-- The wording of a fault. -/
def CalendarFault.message : CalendarFault → String
  | .year => "year 0 is out of range"
  | .month => "month must be in 1..12"
  | .day => "day is out of range for month"
  | .hour => "hour must be in 0..23"
  | .minute => "minute must be in 0..59"
  | .second => "second must be in 0..59"
  | .offset minutes =>
    "offset must be a timedelta strictly between -timedelta(hours=24) and " ++
      "timedelta(hours=24), not " ++
      Moment.stretch minutes ++ "."

end Retouch
