/-!
# A place in a document

What is still to be read, and where that is: how many characters and lines came before and how many
characters came before in the line. Four characters end a line; two of them are kept as they are and
the other two are read as line feeds.
-/

namespace Retouch.Yaml

/-- Whether a character ends a line. -/
def isBreak (c : Char) : Bool :=
  c == '\n' || c == '\u0085' || c == '\u2028' || c == '\u2029'

/-- Whether a character is a blank inside a line. -/
def isGap (c : Char) : Bool :=
  c == ' ' || c == '\t'

/-- What the end of a line is read as. -/
def breakText (c : Char) : Char :=
  if c == '\u0085' then '\n' else c

/-- Whether a character may stand in a document. -/
def isAllowed (c : Char) : Bool :=
  let code := c.toNat
  c == '\t' || c == '\n' || c == '\r' || (0x20 ≤ code && code ≤ 0x7e) || code == 0x85 ||
    (0xa0 ≤ code && code ≤ 0xfffd) || 0x10000 ≤ code

/-- Whether nothing, a blank or the end of a line is in front. -/
def isParted : List Char → Bool
  | [] => true
  | c :: _ => isGap c || isBreak c

/-- Whether nothing, a space or the end of a line is in front. -/
def isSpaceParted : List Char → Bool
  | [] => true
  | c :: _ => c == ' ' || isBreak c

/-- Whether the mark that starts a document is in front. -/
def startsDocument : List Char → Bool
  | '-' :: '-' :: '-' :: rest => isParted rest
  | _ => false

/-- Whether the mark that ends a document is in front. -/
def endsDocument : List Char → Bool
  | '.' :: '.' :: '.' :: rest => isParted rest
  | _ => false

/-- Whether a mark of a document is in front. -/
def isMark (cs : List Char) : Bool :=
  startsDocument cs || endsDocument cs

/-- A place in a document. -/
structure Cursor where
  rest : List Char
  /-- How many characters the document has. -/
  size : Nat
  index : Nat := 0
  line : Nat := 0
  column : Nat := 0
deriving Inhabited

namespace Cursor

/-- A bound for what can still be read. -/
def left (c : Cursor) : Nat :=
  c.size - c.index + 1

/-- Whether nothing follows. -/
def atEnd (c : Cursor) : Bool :=
  c.rest.isEmpty

/-- The next character. -/
def peek (c : Cursor) : Option Char :=
  c.rest.head?

/-- Whether the next character fits. -/
def sees (c : Cursor) (p : Char → Bool) : Bool :=
  c.rest.head?.any p

/-- The place behind the next character. A byte order mark takes no column. -/
def next (c : Cursor) : Cursor :=
  match c.rest with
  | [] => c
  | x :: rest =>
    if isBreak x then ⟨rest, c.size, c.index + 1, c.line + 1, 0⟩
    else
      ⟨rest, c.size, c.index + 1, c.line, if x == '\ufeff' then c.column else c.column + 1⟩

/-- The place behind so many characters. -/
def forward : Nat → Cursor → Cursor
  | 0, c => c
  | n + 1, c => forward n c.next

/-- The characters in front that fit, and the place behind them. -/
def span (c : Cursor) (p : Char → Bool) : List Char × Cursor :=
  let word := c.rest.takeWhile p
  (word, c.forward word.length)

/-- The place behind the characters in front that fit. -/
def skip (c : Cursor) (p : Char → Bool) : Cursor :=
  (c.span p).2

/-- The place behind spaces and a comment. -/
def skipRemark (c : Cursor) : Cursor :=
  let c := c.skip (· == ' ')
  if c.peek = some '#' then c.skip (!isBreak ·) else c

/-- The next token's place, and whether a line ends before it. -/
def skipLines : Nat → Cursor → Cursor × Bool
  | 0, c => (c, false)
  | fuel + 1, c =>
    let c := c.skipRemark
    if c.sees isBreak then ((skipLines fuel c.next).1, true) else (c, false)

/-- The place behind a line of which nothing but spaces and a comment is left. -/
def skipLine? (c : Cursor) : Option Cursor :=
  let c := c.skipRemark
  if c.atEnd || c.sees isBreak then some c.next else none

end Cursor

/-- What the end of a line and the empty lines behind it are in a text: one line feed alone is a
space. -/
def folded (first : Char) (more : List Char) : List Char :=
  if first != '\n' then first :: more
  else if more.isEmpty then [' ']
  else more

end Retouch.Yaml
