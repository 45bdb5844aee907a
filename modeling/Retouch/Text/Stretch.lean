/-!
# Tables of code points

A property of characters is kept as a table of stretches of code points in rising order, ends
included, and looked up by bisection.
-/

namespace Retouch.Text

/-- Looks for the stretch of a code point between two positions of a table. -/
def liesBetween (table : Array (Nat × Nat)) (code : Nat) : Nat → Nat → Nat → Bool
  | 0, _, _ => false
  | rounds + 1, low, high =>
    if high ≤ low then false
    else
      let middle := (low + high) / 2
      match table[middle]? with
      | none => false
      | some (first, last) =>
        if code < first then liesBetween table code rounds low middle
        else if last < code then liesBetween table code rounds (middle + 1) high
        else true

/-- Whether a character lies in a stretch of a table. Every round leaves fewer positions, so there
are never more rounds than positions. -/
def liesIn (table : Array (Nat × Nat)) (c : Char) : Bool :=
  liesBetween table c.toNat (table.size + 1) 0 table.size

end Retouch.Text
