import Retouch.Datum.Yaml.Timestamp
import Retouch.Fault

/-!
# What nodes stand for

Every node has a label. A tag gives the label by name, collections have theirs by nature, and a text
without quotes has the label of the first pattern it fits: words for truth and absence, numbers in
several bases and with points, days and times, and the two keys with a meaning of their own. All
other texts are texts. `Label.scalar` gives the value of a text under a label. Bytes, sets and lists
of pairs are no data here, so a node with the tag of one has no value.
-/

namespace Retouch.Yaml

/-- Why a document has no value. -/
inductive Trouble where
  /-- The document is not well formed. -/
  | malformed
  | fault (f : Fault)
deriving Inhabited

/-- What a node stands for. -/
inductive Label where
  | null
  | bool
  | int
  | real
  | moment
  | text
  | list
  | mapping
  /-- The key whose value is merged into the mapping around it. -/
  | merge
  /-- The key of the default value, which is no value itself. -/
  | default
  /-- There are no data of this kind. -/
  | unknown
deriving DecidableEq, Repr, Inhabited

namespace Label

/-! ## Patterns -/

/-- Whether there are characters, and all fit. -/
def some1 (p : Char → Bool) (cs : List Char) : Bool :=
  !cs.isEmpty && cs.all p

/-- A digit of a base, or the underscore that may stand among digits. -/
def isSpacedDigit (base : Nat) (c : Char) : Bool :=
  Numeral.isDigit base c || c == '_'

/-- What follows a sign, if there is one. -/
def unsigned : List Char → List Char
  | '-' :: rest => rest
  | '+' :: rest => rest
  | cs => cs

/-- A digit that is not zero, and spaced digits. -/
def isDecimal : List Char → Bool
  | c :: rest => c.isDigit && c != '0' && rest.all (isSpacedDigit 10)
  | [] => false

/-- A digit and spaced digits. -/
def isSpacedDecimal : List Char → Bool
  | c :: rest => c.isDigit && rest.all (isSpacedDigit 10)
  | [] => false

/-- A digit of base sixty. -/
def isSixtieth : List Char → Bool
  | [c] => c.isDigit
  | [a, b] => '0' ≤ a && a ≤ '5' && b.isDigit
  | _ => false

/-- Parts between colons. -/
def parts (cs : List Char) : List (List Char) :=
  cs.splitOn ':'

/-- A number whose digits of base sixty follow its first part behind colons. -/
def isSexagesimal (first : List Char → Bool) (cs : List Char) : Bool :=
  match parts cs with
  | head :: rest => first head && !rest.isEmpty && rest.all isSixtieth
  | [] => false

/-- Whether a text is a whole number. -/
def isInt (cs : List Char) : Bool :=
  let body := unsigned cs
  body == ['0'] || isDecimal body || isSexagesimal isDecimal body ||
    match body with
    | '0' :: 'b' :: rest => some1 (isSpacedDigit 2) rest
    | '0' :: 'x' :: rest => some1 (isSpacedDigit 16) rest
    | '0' :: rest => some1 (isSpacedDigit 8) rest
    | _ => false

/-- Nothing, or a power of ten with its sign. -/
def isPower : List Char → Bool
  | [] => true
  | mark :: sign :: rest =>
    (mark == 'e' || mark == 'E') && (sign == '-' || sign == '+') && some1 Char.isDigit rest
  | _ => false

/-- Spaced digits and perhaps a power of ten. -/
def isFraction (cs : List Char) : Bool :=
  isPower (cs.dropWhile (isSpacedDigit 10))

/-- Whether a text is a number with a point, or one that is not finite. -/
def isReal (cs : List Char) : Bool :=
  let body := unsigned cs
  let whole := body.takeWhile (· != '.')
  let part := (body.dropWhile (· != '.')).drop 1
  let pointed := body.contains '.'
  (pointed && isSpacedDecimal whole && isFraction part) ||
    (pointed && isSexagesimal isSpacedDecimal whole && part.all (isSpacedDigit 10)) ||
    [".inf", ".Inf", ".INF"].contains (String.ofList body) ||
    [".nan", ".NaN", ".NAN"].contains (String.ofList cs) ||
    match cs with
    | '.' :: c :: rest => c.isDigit && isFraction rest
    | _ => false

/-- Words for truth values. -/
def trueWords : List String := ["yes", "Yes", "YES", "true", "True", "TRUE", "on", "On", "ON"]

/-- Words for truth values. -/
def falseWords : List String := ["no", "No", "NO", "false", "False", "FALSE", "off", "Off", "OFF"]

/-- Words for the absent value. -/
def nullWords : List String := ["", "~", "null", "Null", "NULL"]

/-- The label of a text without quotes and tag. -/
def ofPlain (s : String) : Label :=
  let cs := s.toList
  if trueWords.contains s || falseWords.contains s then .bool
  else if isReal cs then .real
  else if isInt cs then .int
  else if s == "<<" then .merge
  else if nullWords.contains s then .null
  else if Timestamp.isPlain cs then .moment
  else if s == "=" then .default
  else .text

/-- The label a tag gives. -/
def ofTag (tag : String) : Label :=
  match tag with
  | "tag:yaml.org,2002:null" => .null
  | "tag:yaml.org,2002:bool" => .bool
  | "tag:yaml.org,2002:int" => .int
  | "tag:yaml.org,2002:float" => .real
  | "tag:yaml.org,2002:timestamp" => .moment
  | "tag:yaml.org,2002:str" => .text
  | "tag:yaml.org,2002:seq" => .list
  | "tag:yaml.org,2002:map" => .mapping
  | "tag:yaml.org,2002:merge" => .merge
  | "tag:yaml.org,2002:value" => .default
  | _ => .unknown

/-! ## Values -/

/-- A number read in a base. -/
def numeral (base : Nat) (cs : List Char) : Except Trouble Int :=
  (Numeral.read base (String.ofList cs)).mapError fun f => .fault (.numeral f)

/-- Parts of base sixty summed up. -/
def sexagesimal (digits : List Int) : Int :=
  digits.foldl (fun n d => 60 * n + d) 0

/-- The whole number a text is. Underscores do not count, and a zero in front asks for base
eight. -/
def intOf (s : String) : Except Trouble Int := do
  let cs := s.toList.filter (· != '_')
  if cs.isEmpty then throw (.fault .characterOutOfRange)
  let sign (n : Int) : Int := if cs.head? = some '-' then -n else n
  let body := unsigned cs
  match body with
  | [] => throw (.fault .characterOutOfRange)
  | ['0'] => return 0
  | '0' :: 'b' :: rest => return sign (← numeral 2 rest)
  | '0' :: 'x' :: rest => return sign (← numeral 16 rest)
  | '0' :: _ => return sign (← numeral 8 body)
  | _ =>
    if body.contains ':' then return sign (sexagesimal (← (parts body).mapM (numeral 10)))
    else return sign (← numeral 10 body)

/-- A number with a point, without its sign. -/
def unsignedReal (cs : List Char) : Except Trouble Double :=
  let (negative, body) := match cs with
    | '-' :: rest => (true, rest)
    | '+' :: rest => (false, rest)
    | rest => (false, rest)
  match String.ofList body with
  | "inf" | "infinity" => .ok (.infinite negative)
  | "nan" => .ok .undefined
  | _ =>
    match Double.ofDigits? negative body with
    | some x => .ok x
    | none => .error (.fault (.malformedReal (String.ofList cs)))

/-- Parts of base sixty summed up from the last one on. -/
def realSum (digits : List Double) : Double :=
  (digits.reverse.foldl
    (fun (sum, base) d => (Double.add sum (d.scale base), base * 60)) (Double.zero false, 1)).1

/-- The number with a point a text is. -/
def realOf (s : String) : Except Trouble Double := do
  let cs := (s.toList.filter (· != '_')).map Char.toLower
  if cs.isEmpty then throw (.fault .characterOutOfRange)
  let negative := cs.head? = some '-'
  let body := unsigned cs
  let sign (x : Double) : Double := if negative then x.neg else x
  match String.ofList body with
  | ".inf" => return .infinite negative
  | ".nan" => return .undefined
  | _ =>
    if body.contains ':' then return sign (realSum (← (parts body).mapM unsignedReal))
    else return sign (← unsignedReal body)

/-- The value of a text under a label. -/
def scalar (label : Label) (s : String) : Except Trouble Scalar :=
  match label with
  | .null => .ok .null
  | .bool =>
    if trueWords.contains (s.map Char.toLower) then .ok (.bool true)
    else if falseWords.contains (s.map Char.toLower) then .ok (.bool false)
    else .error (.fault (.noKey (.text (s.map Char.toLower))))
  | .int => (intOf s).map .int
  | .real => (realOf s).map .real
  | .moment =>
    match Timestamp.parse? s.toList with
    | none => .error .malformed
    | some m =>
      match m.fault? with
      | some f => .error (.fault (.calendar f))
      | none => .ok (.moment m)
  | .text => .ok (.text s)
  | _ => .error .malformed

end Label

end Retouch.Yaml
