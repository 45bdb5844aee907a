/-!
# Machine words

Positions in sequences and numbers that stand for truth values are machine words: whole numbers of
64 bits with a sign. Codes of characters are half words.
-/

namespace Retouch.Word

/-- Whether a machine word can hold a number. -/
def holds (n : Int) : Bool :=
  decide (-9223372036854775808 ≤ n ∧ n < 9223372036854775808)

/-- Whether half a machine word can hold a number that is not negative. -/
def isHalf (n : Nat) : Bool :=
  decide (n < 2147483648)

end Retouch.Word
