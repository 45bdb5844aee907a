import Retouch.Datum.Yaml.Cursor
import Retouch.Datum.Yaml.Label

/-!
# Written texts

A text stands in a document without quotes, in quotes, or as a block of lines. In the first two
forms a line that ends is a space, and every empty line behind it is a line feed; blanks at both
ends of lines do not count. A block keeps its lines, or folds them where they start at the block's
indent. Each reader gives the text and the place behind it.
-/

namespace Retouch.Yaml.Written

/-- Characters that part the members of a collection in brackets. -/
def isFlowMark (c : Char) : Bool :=
  [',', '[', ']', '\x7b', '\x7d'].contains c

/-! ## Without quotes -/

/-- Whether a colon with this behind it ends a text without quotes. -/
def endsKey (flow : Bool) : List Char → Bool
  | [] => true
  | c :: rest => isParted (c :: rest) || (flow && isFlowMark c)

/-- The characters up to a blank, or to what ends a text without quotes. -/
def plainWord (flow : Bool) : List Char → List Char
  | [] => []
  | c :: rest =>
    if isGap c || isBreak c || (c == ':' && endsKey flow rest) ||
      (flow && (isFlowMark c || c == '?')) then []
    else c :: plainWord flow rest

/-- Empty lines up to a mark of a document or to what is no blank. The first part is absent where a
mark stops the text. -/
def plainLines : Nat → Cursor → List Char → Option (List Char) × Cursor
  | 0, c, _ => (none, c)
  | fuel + 1, c, breaks =>
    if c.column = 0 ∧ isMark c.rest then (none, c)
    else
      let c := c.skip (· == ' ')
      match c.peek with
      | some x =>
        if isBreak x then plainLines fuel c.next (breakText x :: breaks)
        else (some breaks.reverse, c)
      | none => (some breaks.reverse, c)

/-- What stands for the blanks between two words, the place behind them, and whether a line ends
there. -/
def plainGap (c : Cursor) : List Char × Cursor × Bool :=
  let (gap, c) := c.span (· == ' ')
  match c.peek with
  | some x =>
    if isBreak x then
      let c := c.next
      match plainLines c.left c [] with
      | (some breaks, c) => (folded (breakText x) breaks, c, true)
      | (none, c) => ([], c, true)
    else (gap, c, false)
  | none => (gap, c, false)

/-- Words of a text without quotes, in reverse, with what stands between them. The last part says
whether a line has ended behind the text. -/
def plainWords (flow : Bool) (indent : Int) :
    Nat → Cursor → List (List Char) → List Char → Bool → List (List Char) × Cursor × Bool
  | 0, c, words, _, broken => (words, c, broken)
  | fuel + 1, c, words, gap, broken =>
    let word := plainWord flow c.rest
    if word.isEmpty || c.peek = some '#' then (words, c, broken)
    else
      let words := word :: gap :: words
      let (gap, c, broken) := plainGap (c.forward word.length)
      if gap.isEmpty || c.peek = some '#' || (!flow && c.column < indent + 1) then
        (words, c, broken)
      else plainWords flow indent fuel c words gap broken

/-- A text without quotes, and whether a line has ended behind it. -/
def plain (flow : Bool) (indent : Int) (c : Cursor) : String × Cursor × Bool :=
  let (words, c, broken) := plainWords flow indent c.left c [] [] false
  (String.ofList words.reverse.flatten, c, broken)

/-! ## In quotes -/

/-- The character behind a backslash, for escapes of one character. -/
def escape? : Char → Option Nat
  | '0' => some 0
  | 'a' => some 0x07
  | 'b' => some 0x08
  | 't' => some 0x09
  | '\t' => some 0x09
  | 'n' => some 0x0a
  | 'v' => some 0x0b
  | 'f' => some 0x0c
  | 'r' => some 0x0d
  | 'e' => some 0x1b
  | ' ' => some 0x20
  | '"' => some 0x22
  | '\\' => some 0x5c
  | '/' => some 0x2f
  | 'N' => some 0x85
  | '_' => some 0xa0
  | 'L' => some 0x2028
  | 'P' => some 0x2029
  | _ => none

/-- How many digits follow the letter of an escape by code. -/
def codeWidth? : Char → Option Nat
  | 'x' => some 2
  | 'u' => some 4
  | 'U' => some 8
  | _ => none

/-- Codes of characters as a text. Two halves of a pair are one character. -/
def ofCodes : List Nat → List Char
  | [] => []
  | high :: low :: rest =>
    if 0xd800 ≤ high ∧ high < 0xdc00 ∧ 0xdc00 ≤ low ∧ low < 0xe000 then
      Char.ofNat (0x10000 + (high - 0xd800) * 0x400 + (low - 0xdc00)) :: ofCodes rest
    else one high :: ofCodes (low :: rest)
  | [code] => [one code]
where
  one (code : Nat) : Char :=
    if code.isValidChar then Char.ofNat code else '\ufffd'

/-- Empty lines inside quotes. A mark of a document must not stand there. -/
def quotedLines : Nat → Cursor → List Char → Except Trouble (List Char × Cursor)
  | 0, _, _ => .error .malformed
  | fuel + 1, c, breaks =>
    if isMark c.rest then .error .malformed
    else
      let c := c.skip isGap
      match c.peek with
      | some x =>
        if isBreak x then quotedLines fuel c.next (breakText x :: breaks)
        else .ok (breaks.reverse, c)
      | none => .ok (breaks.reverse, c)

/-- The code that an escape stands for, with the place behind it. The place given is behind the
backslash. An escaped end of a line stands for the empty lines behind it. -/
def escaped (c : Cursor) : Except Trouble (List Nat × Cursor) :=
  match c.peek with
  | none => .error .malformed
  | some x =>
    match escape? x, codeWidth? x with
    | some code, _ => .ok ([code], c.next)
    | none, some width =>
      let digits := c.next.rest.take width
      if digits.length = width ∧ digits.all (Numeral.isDigit 16) then
        let code := Numeral.valueOf 16 digits
        if code < 0x110000 then .ok ([code], c.next.forward width)
        else .error (.fault (.noCharacter code))
      else .error .malformed
    | none, none =>
      if isBreak x then
        (quotedLines c.left c.next []).map fun (breaks, c) =>
          (breaks.map Char.toNat, c)
      else .error .malformed

/-- Blanks inside quotes: kept inside a line and folded where a line ends. -/
def quotedGap (c : Cursor) : Except Trouble (List Char × Cursor) :=
  let (gap, c) := c.span isGap
  match c.peek with
  | none => .error .malformed
  | some x =>
    if isBreak x then
      (quotedLines c.left c.next []).map fun (breaks, c) =>
        (folded (breakText x) breaks, c)
    else .ok (gap, c)

/-- The rest of a text in quotes; `read` holds the codes so far in reverse. -/
def quotedRest (double : Bool) : Nat → Cursor → List Nat → Except Trouble (List Nat × Cursor)
  | 0, _, _ => .error .malformed
  | fuel + 1, c, read =>
    match c.rest with
    | [] => .error .malformed
    | x :: rest =>
      if x == (if double then '"' else '\'') then
        if !double && rest.head? = some '\'' then
          quotedRest double fuel (c.forward 2) ('\''.toNat :: read)
        else .ok (read.reverse, c.next)
      else if double && x == '\\' then
        match escaped c.next with
        | .error e => .error e
        | .ok (codes, c) => quotedRest double fuel c (codes.reverse ++ read)
      else if isGap x || isBreak x then
        match quotedGap c with
        | .error e => .error e
        | .ok (gap, c) => quotedRest double fuel c ((gap.map Char.toNat).reverse ++ read)
      else quotedRest double fuel c.next (x.toNat :: read)

/-- A text in quotes. -/
def quoted (double : Bool) (c : Cursor) : Except Trouble (String × Cursor) :=
  (quotedRest double c.left c.next []).map fun (codes, c) =>
    (String.ofList (ofCodes codes), c)

/-! ## Blocks -/

/-- What becomes of the ends of lines behind a block. -/
inductive Tail where
  | one
  | none
  | all
deriving DecidableEq, Repr

/-- The mark for what becomes of the tail. -/
def tail? : Char → Option Tail
  | '+' => some .all
  | '-' => some .none
  | _ => Option.none

/-- The head of a block: the tail and how far the block is indented, in either order. -/
def blockHead (c : Cursor) : Option (Tail × Option Nat × Cursor) :=
  let tailOf (c : Cursor) : Option Tail × Cursor := match c.peek.bind tail? with
    | some t => (some t, c.next)
    | Option.none => (Option.none, c)
  let depthOf (c : Cursor) : Option Nat × Cursor := match c.peek with
    | some x => if x.isDigit then (some (x.toNat - '0'.toNat), c.next) else (Option.none, c)
    | Option.none => (Option.none, c)
  let (t, c) := tailOf c
  let (depth, c) := depthOf c
  let (t, c) := if t.isNone then tailOf c else (t, c)
  if depth = some 0 ∨ ¬ isSpaceParted c.rest then Option.none
  else some (t.getD .one, depth, c)

/-- Empty lines in front of a block, and the widest indent among them and the first line. -/
def blockIndent : Nat → Cursor → List Char → Nat → List Char × Nat × Cursor
  | 0, c, breaks, widest => (breaks.reverse, widest, c)
  | fuel + 1, c, breaks, widest =>
    match c.peek with
    | some x =>
      if isBreak x then blockIndent fuel c.next (breakText x :: breaks) widest
      else if x == ' ' then blockIndent fuel c.next breaks (max widest (c.column + 1))
      else (breaks.reverse, widest, c)
    | Option.none => (breaks.reverse, widest, c)

/-- The place behind spaces, not beyond a column. -/
def skipTo (column : Int) : Nat → Cursor → Cursor
  | 0, c => c
  | fuel + 1, c =>
    if c.column < column ∧ c.peek = some ' ' then skipTo column fuel c.next else c

/-- Empty lines inside a block, with the indent of the line behind them. -/
def blockBreaks (indent : Int) : Nat → Cursor → List Char → List Char × Cursor
  | 0, c, breaks => (breaks.reverse, c)
  | fuel + 1, c, breaks =>
    let c := skipTo indent c.left c
    match c.peek with
    | some x =>
      if isBreak x then blockBreaks indent fuel c.next (breakText x :: breaks)
      else (breaks.reverse, c)
    | Option.none => (breaks.reverse, c)

/-- The lines of a block: the text so far in reverse, the end of the last line, the empty lines
behind it, and the place behind those. -/
def blockLines (fold : Bool) (indent : Int) :
    Nat → Cursor → List Char → List Char → List Char → List Char × List Char × List Char × Cursor
  | 0, c, read, last, breaks => (read, last, breaks, c)
  | fuel + 1, c, read, last, breaks =>
    if (c.column : Int) = indent ∧ ¬ c.atEnd then
      let flush := !c.sees isGap
      let (line, c) := c.span (!isBreak ·)
      let last := (c.peek.map breakText).toList
      let (more, c) := blockBreaks indent c.left c.next []
      let read := line.reverse ++ breaks.reverse ++ read
      if (c.column : Int) = indent ∧ ¬ c.atEnd then
        let between :=
          if fold && last == ['\n'] && flush && !c.sees isGap then
            (if more.isEmpty then [' '] else [])
          else last
        blockLines fold indent fuel c (between ++ read) [] more
      else (read, last, more, c)
    else (read, last, breaks, c)

/-- A block of lines, inside a collection of a given indent. -/
def block (fold : Bool) (indent : Int) (c : Cursor) : Except Trouble (String × Cursor) :=
  match blockHead c.next with
  | Option.none => .error .malformed
  | some (t, depth, c) =>
    match c.skipLine? with
    | Option.none => .error .malformed
    | some c =>
      let least : Int := max 1 (indent + 1)
      let (breaks, column, c) := match depth with
        | some n =>
          let column := least + n - 1
          let (breaks, c) := blockBreaks column c.left c []
          (breaks, column, c)
        | Option.none =>
          let (breaks, widest, c) := blockIndent c.left c [] 0
          (breaks, max least widest, c)
      let (read, last, breaks, c) := blockLines fold column c.left c [] [] breaks
      let ending := match t with
        | .one => last
        | .none => []
        | .all => last ++ breaks
      .ok (String.ofList (read.reverse ++ ending), c)

end Retouch.Yaml.Written
