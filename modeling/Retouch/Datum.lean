import Retouch.Double
import Retouch.Moment

/-!
# Plain data

What settings files, environment values and log fields hold: scalars, lists and mappings. The keys
of a mapping are scalars, in insertion order. A truth value, the number it stands for and the same
number written with a point are three values, but one key; so are times that are told ahead of the
common one by different offsets and fall on the same instant.
-/

namespace Retouch

/-- A value without parts. -/
inductive Scalar where
  | null
  | bool (b : Bool)
  | int (n : Int)
  | real (x : Double)
  | moment (m : Moment)
  | text (s : String)
deriving DecidableEq, Repr, Inhabited

namespace Scalar

/-- What is compared where scalars are keys. -/
inductive Key where
  | scalar (s : Scalar)
  /-- A time by the minutes up to it, told without an offset, and what is left of it. -/
  | instant (minutes : Int) (second micro : Nat)
deriving DecidableEq, Repr

/-- The key a scalar is: truth values count as numbers, whole numbers are one with or without a
point, and times with an offset are one on the same instant. -/
def asKey : Scalar → Key
  | .bool false => .scalar (.int 0)
  | .bool true => .scalar (.int 1)
  | .real x =>
    match x.integer? with
    | some n => .scalar (.int n)
    | none => .scalar (.real x)
  | .moment (.time d t (some offset)) =>
    .instant (d.count * 1440 + t.hour * 60 + t.minute - offset) t.second t.micro
  | s => .scalar s

/-- Whether two scalars are the same key. -/
instance : BEq Scalar := ⟨fun a b => decide (a.asKey = b.asKey)⟩

instance : EquivBEq Scalar where
  rfl := by simp [BEq.beq]
  symm := by simp only [BEq.beq, decide_eq_true_eq]; exact Eq.symm
  trans := by simp only [BEq.beq, decide_eq_true_eq]; exact Eq.trans

-- half past nine in the evening west of the common time, and half past two the day after it
example : (moment (.time ⟨2001, 12, 31⟩ ⟨21, 30, 0, 0⟩ (some (-300))) ==
    moment (.time ⟨2002, 1, 1⟩ ⟨2, 30, 0, 0⟩ (some 0))) = true := by decide

end Scalar

/-- A value of plain data. -/
inductive Datum where
  | scalar (s : Scalar)
  | list (items : List Datum)
  | mapping (entries : List (Scalar × Datum))
deriving Inhabited, Repr

namespace Datum

mutual

/-- Whether two values are the same. -/
def decEq : (a b : Datum) → Decidable (a = b)
  | .scalar s, .scalar t => decidable_of_iff (s = t) (by rw [scalar.injEq])
  | .list as, .list bs =>
    match decEqItems as bs with
    | .isTrue h => .isTrue (h ▸ rfl)
    | .isFalse h => .isFalse fun he => h (list.inj he)
  | .mapping as, .mapping bs =>
    match decEqEntries as bs with
    | .isTrue h => .isTrue (h ▸ rfl)
    | .isFalse h => .isFalse fun he => h (mapping.inj he)
  | .scalar _, .list _ => .isFalse nofun
  | .scalar _, .mapping _ => .isFalse nofun
  | .list _, .scalar _ => .isFalse nofun
  | .list _, .mapping _ => .isFalse nofun
  | .mapping _, .scalar _ => .isFalse nofun
  | .mapping _, .list _ => .isFalse nofun

/-- Whether two lists of values are the same. -/
def decEqItems : (as bs : List Datum) → Decidable (as = bs)
  | [], [] => .isTrue rfl
  | [], _ :: _ => .isFalse nofun
  | _ :: _, [] => .isFalse nofun
  | a :: as, b :: bs =>
    match decEq a b, decEqItems as bs with
    | .isTrue h, .isTrue h' => .isTrue (h ▸ h' ▸ rfl)
    | .isFalse h, _ => .isFalse fun he => h (List.cons.inj he).1
    | _, .isFalse h => .isFalse fun he => h (List.cons.inj he).2

/-- Whether two lists of entries are the same. -/
def decEqEntries : (as bs : List (Scalar × Datum)) → Decidable (as = bs)
  | [], [] => .isTrue rfl
  | [], _ :: _ => .isFalse nofun
  | _ :: _, [] => .isFalse nofun
  | (k, a) :: as, (l, b) :: bs =>
    match decEq a b, decEqEntries as bs with
    | .isTrue h, .isTrue h' => decidable_of_iff (k = l) (by simp [h, h'])
    | .isFalse h, _ => .isFalse fun he => h (by injection he with hab; injection hab)
    | _, .isFalse h => .isFalse fun he => h (List.cons.inj he).2

end

instance : DecidableEq Datum := decEq

/-- The absent value. -/
@[match_pattern] abbrev null : Datum := .scalar .null

/-- A truth value. -/
@[match_pattern] abbrev bool (b : Bool) : Datum := .scalar (.bool b)

/-- A whole number. -/
@[match_pattern] abbrev int (n : Int) : Datum := .scalar (.int n)

/-- A text. -/
@[match_pattern] abbrev text (s : String) : Datum := .scalar (.text s)

/-- A text that may be absent. -/
def ofText? : Option String → Datum
  | some s => .text s
  | none => .null

/-- Whether a value is a text, and which. -/
def isText (s : String) : Datum → Bool
  | .scalar (.text t) => t == s
  | _ => false

/-- The name of a value's type. -/
def typeName : Datum → String
  | .scalar .null => "NoneType"
  | .scalar (.bool _) => "bool"
  | .scalar (.int _) => "int"
  | .scalar (.real _) => "float"
  | .scalar (.moment (.day _)) => "date"
  | .scalar (.moment (.time _ _ _)) => "datetime"
  | .scalar (.text _) => "str"
  | .list _ => "list"
  | .mapping _ => "dict"

/-- Whether a value can be a key. -/
def isKey : Datum → Bool
  | .scalar _ => true
  | _ => false

/-- Absent, false, zero and whatever is empty count as nothing. -/
def isNothing : Datum → Bool
  | .scalar .null => true
  | .scalar (.bool b) => !b
  | .scalar (.int n) => n == 0
  | .scalar (.real x) => x.isZero
  | .scalar (.moment _) => false
  | .scalar (.text s) => s.isEmpty
  | .list items => items.isEmpty
  | .mapping entries => entries.isEmpty

end Datum

end Retouch
