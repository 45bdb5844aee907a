/-!
# Lines

A text as its lines. A line ends at any of the characters that part lines, and a carriage return
with a line feed after it parts lines once. What follows the last end is a line only if there is
something.
-/

namespace Retouch.Text

/-- Whether a character parts lines. -/
def isLineEnd (c : Char) : Bool :=
  ['\n', '\r', '\x0b', '\x0c', '\x1c', '\x1d', '\x1e', '\u0085', '\u2028', '\u2029'].contains c

/-- Puts a character in front of the first line. -/
def onFirstLine (c : Char) : List (List Char) → List (List Char)
  | [] => [[c]]
  | line :: rest => (c :: line) :: rest

/-- The lines of a list of characters. -/
def linesOf : List Char → List (List Char)
  | [] => []
  | '\r' :: '\n' :: rest => [] :: linesOf rest
  | c :: rest => if isLineEnd c then [] :: linesOf rest else onFirstLine c (linesOf rest)

/-- The lines of a text. -/
def lines (s : String) : List String :=
  (linesOf s.toList).map String.ofList

end Retouch.Text
