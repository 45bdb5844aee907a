import Retouch.Datum.Yaml.Written

/-!
# Tokens of a document

A document as a row of tokens. Indentation outside brackets is turned into tokens that open and
close collections. A key is known only by the colon behind it, so everything that may turn out to be
a key is remembered as a candidate, one for each depth of brackets, and the tokens in front of it
are put in later. A candidate is given up when its line ends or when it is more than 1024 characters
away.
-/

namespace Retouch.Yaml

/-- A token of a document. -/
inductive Token where
  | version (major : Nat)
  /-- A handle for tags, and what it stands for. -/
  | handle (name stem : String)
  /-- A directive without effect. -/
  | remark
  | documentStart
  | documentEnd
  | blockList
  | blockMapping
  | blockEnd
  | flowList
  | flowListEnd
  | flowMapping
  | flowMappingEnd
  | item
  | comma
  | key
  | value
  | alias (name : String)
  | anchor (name : String)
  | tag (handle : Option String) (suffix : String)
  | scalar (text : String) (isPlain : Bool)
  /-- Nothing can be read from here on. -/
  | broken (trouble : Trouble)
deriving Inhabited

/-- What may turn out to be a key. -/
structure Candidate where
  /-- The depth of brackets. -/
  depth : Nat
  /-- How many tokens stand in front. -/
  place : Nat
  /-- Nothing else can stand here. -/
  required : Bool
  start : Cursor
deriving Inhabited

/-- What is known of the document so far. -/
structure Layout where
  cursor : Cursor
  /-- The tokens, the last one first. -/
  written : List Token := []
  /-- How many tokens there are. -/
  count : Nat := 0
  /-- The depth of brackets. -/
  depth : Nat := 0
  /-- The indent of the block around, and of those around it. -/
  indent : Int := -1
  outer : List Int := []
  keyAllowed : Bool := true
  candidates : List Candidate := []
deriving Inhabited

/-- Reading a document, which may fail. What was read up to there is kept. -/
abbrev Scan := ExceptT Trouble (StateM Layout)

namespace Scan

/-- The document is not well formed. -/
def malformed {α : Type} : Scan α :=
  throw .malformed

/-- The place of reading. -/
def cursor : Scan Cursor :=
  return (← get).cursor

/-- Goes on at a place. -/
def moveTo (c : Cursor) : Scan Unit :=
  modify fun l => { l with cursor := c }

/-- Whether reading is inside brackets. -/
def inFlow : Scan Bool :=
  return (← get).depth != 0

/-- Adds a token. -/
def emit (t : Token) : Scan Unit :=
  modify fun l => { l with written := t :: l.written, count := l.count + 1 }

/-- Says whether a key may start here. -/
def allowKey (allowed : Bool) : Scan Unit :=
  modify fun l => { l with keyAllowed := allowed }

/-- Adds a token of so many characters. -/
def emitOver (n : Nat) (t : Token) : Scan Unit := do
  moveTo ((← cursor).forward n)
  emit t

/-! ## Keys and indents -/

/-- Whether a candidate can no longer be a key. -/
def isStale (c : Cursor) (candidate : Candidate) : Bool :=
  candidate.start.line != c.line || decide (1024 < c.index - candidate.start.index)

/-- Gives up candidates. A required one must not be given up. -/
def giveUp (p : Candidate → Bool) : Scan Unit := do
  let l ← get
  if l.candidates.any fun x => p x && x.required then malformed
  else set { l with candidates := l.candidates.filter fun x => !p x }

/-- Gives up the candidate of this depth. -/
def giveUpHere : Scan Unit := do
  let l ← get
  giveUp fun x => x.depth == l.depth

/-- Remembers that a key may start here. -/
def remember : Scan Unit := do
  let l ← get
  if l.keyAllowed then
    giveUpHere
    let required := l.depth == 0 && l.indent == l.cursor.column
    modify fun l => { l with
      candidates := ⟨l.depth, l.count, required, l.cursor⟩ :: l.candidates }

/-- How many blocks end at a column, and the indents of those that go on. -/
def closed (column : Int) : Int → List Int → Nat × Int × List Int
  | indent, [] => if column < indent then (1, -1, []) else (0, indent, [])
  | indent, around :: outer =>
    if column < indent then
      let (n, rest) := closed column around outer
      (n + 1, rest)
    else (0, indent, around :: outer)

/-- Ends the blocks that are indented more than a column. Inside brackets indents do not count. -/
def closeTo (column : Int) : Scan Unit := do
  let l ← get
  if l.depth == 0 then
    let (n, indent, outer) := closed column l.indent l.outer
    set { l with
      indent := indent, outer := outer, count := l.count + n,
      written := List.replicate n Token.blockEnd ++ l.written }

/-- Opens a block at a column that is indented more, and says whether it was. -/
def openAt (column : Nat) : Scan Bool := do
  let l ← get
  if l.indent < column then
    set { l with indent := column, outer := l.indent :: l.outer }
    return true
  else return false

/-- Puts tokens in front of those behind a place. -/
def insertAt (place : Nat) (tokens : List Token) : Scan Unit :=
  modify fun l =>
    let behind := l.count - place
    { l with
      count := l.count + tokens.length,
      written := l.written.take behind ++ tokens.reverse ++ l.written.drop behind }

/-! ## Tokens -/

/-- The marks of a document end all blocks. -/
def documentMark (t : Token) : Scan Unit := do
  closeTo (-1)
  giveUpHere
  allowKey false
  emitOver 3 t

/-- An opening bracket. -/
def openBracket (t : Token) : Scan Unit := do
  remember
  modify fun l => { l with depth := l.depth + 1, keyAllowed := true }
  emitOver 1 t

/-- A closing bracket. -/
def closeBracket (t : Token) : Scan Unit := do
  giveUpHere
  if !(← inFlow) then malformed
  modify fun l => { l with depth := l.depth - 1, keyAllowed := false }
  emitOver 1 t

/-- A comma between the members of a collection. -/
def comma : Scan Unit := do
  allowKey true
  giveUpHere
  emitOver 1 .comma

/-- Outside brackets the mark of an item or a key may open a block. -/
def openBlock (t : Token) : Scan Unit := do
  let l ← get
  if l.depth == 0 then
    if !l.keyAllowed then malformed
    if ← openAt l.cursor.column then emit t

/-- The mark of an item. -/
def item : Scan Unit := do
  openBlock .blockList
  allowKey true
  giveUpHere
  emitOver 1 .item

/-- The mark of a key. -/
def key : Scan Unit := do
  openBlock .blockMapping
  allowKey (!(← inFlow))
  giveUpHere
  emitOver 1 .key

/-- The colon between a key and its value. The candidate of this depth, if any, is the key. -/
def value : Scan Unit := do
  let l ← get
  match l.candidates.find? fun x => x.depth == l.depth with
  | some x =>
    set { l with candidates := l.candidates.filter fun x => x.depth != l.depth }
    let opens ← if l.depth == 0 then openAt x.start.column else pure false
    insertAt x.place (if opens then [.blockMapping, .key] else [.key])
    allowKey false
  | none =>
    openBlock .blockMapping
    allowKey (!(← inFlow))
    giveUpHere
  emitOver 1 .value

/-- Whether a character may stand in a name. -/
def isNameChar (c : Char) : Bool :=
  c.isAlphanum || c == '-' || c == '_'

/-- A name in front, which must not be empty. -/
def name : Scan String := do
  let (word, c) := (← cursor).span isNameChar
  if word.isEmpty then malformed
  moveTo c
  return String.ofList word

/-- Whether a name may end here. -/
def endsName (cs : List Char) : Bool :=
  isParted cs ||
    cs.head?.any fun c => ['?', ':', ',', ']', '\x7d', '%', '@', Char.ofNat 0x60].contains c

/-- An alias or an anchor. -/
def named (make : String → Token) : Scan Unit := do
  remember
  allowKey false
  moveTo (← cursor).next
  let word ← name
  if !endsName (← cursor).rest then malformed
  emit (make word)

/-- Whether a character may stand in the suffix of a tag. -/
def isTagChar (c : Char) : Bool :=
  c.isAlphanum || "-;/?:@&=+$,_.!~*'()[]".toList.contains c

/-- Bytes written as two digits behind percent signs. -/
def escapedBytes : Nat → List Char → Option (List UInt8 × List Char)
  | 0, cs => some ([], cs)
  | fuel + 1, '%' :: a :: b :: rest =>
    if Numeral.isDigit 16 a && Numeral.isDigit 16 b then
      (escapedBytes fuel rest).map fun (bytes, rest) =>
        ((Numeral.valueOf 16 [a, b]).toUInt8 :: bytes, rest)
    else none
  | _ + 1, '%' :: _ => none
  | _ + 1, cs => some ([], cs)

/-- The suffix of a tag in front, and what follows. -/
def tagChars : Nat → List Char → Option (List Char × List Char)
  | 0, cs => some ([], cs)
  | fuel + 1, '%' :: rest =>
    match escapedBytes (rest.length + 1) ('%' :: rest) with
    | none => none
    | some (bytes, rest) =>
      match String.fromUTF8? ⟨bytes.toArray⟩ with
      | none => none
      | some s => (tagChars fuel rest).map fun (cs, rest) => (s.toList ++ cs, rest)
  | fuel + 1, c :: rest =>
    if isTagChar c then (tagChars fuel rest).map fun (cs, rest) => (c :: cs, rest)
    else some ([], c :: rest)
  | _ + 1, [] => some ([], [])

/-- The suffix of a tag, which must not be empty. -/
def tagSuffix : Scan String := do
  let c ← cursor
  match tagChars c.left c.rest with
  | some (word, rest) =>
    if word.isEmpty then malformed
    moveTo (c.forward (c.rest.length - rest.length))
    return String.ofList word
  | none => malformed

/-- The handle of a tag: an exclamation mark, or a name between two. -/
def tagHandle : Scan String := do
  let c ← cursor
  match c.rest with
  | '!' :: ' ' :: _ =>
    moveTo c.next
    return "!"
  | '!' :: rest =>
    let word := rest.takeWhile isNameChar
    if rest.drop word.length |>.head? |>.any (· == '!') then
      moveTo (c.forward (word.length + 2))
      return String.ofList ('!' :: word ++ ['!'])
    else malformed
  | _ => malformed

/-- A tag. -/
def tag : Scan Unit := do
  remember
  allowKey false
  let c ← cursor
  let behind := c.next.rest
  let (handle, suffix) ←
    if behind.head? = some '<' then do
      moveTo (c.forward 2)
      let suffix ← tagSuffix
      if (← cursor).peek ≠ some '>' then malformed
      moveTo (← cursor).next
      pure (none, suffix)
    else if isParted behind then do
      moveTo c.next
      pure (none, "!")
    else if (behind.takeWhile fun x => !(x == ' ' || isBreak x)).contains '!' then do
      let handle ← tagHandle
      pure (some handle, ← tagSuffix)
    else do
      moveTo c.next
      pure (some "!", ← tagSuffix)
  if !isSpaceParted (← cursor).rest then malformed
  emit (.tag handle suffix)

/-- A number in a directive. -/
def directiveNumber : Scan Nat := do
  let (digits, c) := (← cursor).span Char.isDigit
  if digits.isEmpty then malformed
  moveTo c
  return Numeral.valueOf 10 digits

/-- Skips spaces. -/
def spaces : Scan Unit := do
  moveTo ((← cursor).skip (· == ' '))

/-- The part of a directive behind its name. -/
def directiveBody (name : String) : Scan Token := do
  match name with
  | "YAML" =>
    spaces
    let major ← directiveNumber
    if (← cursor).peek ≠ some '.' then malformed
    moveTo (← cursor).next
    let _ ← directiveNumber
    if !isSpaceParted (← cursor).rest then malformed
    return .version major
  | "TAG" =>
    spaces
    let handle ← tagHandle
    if (← cursor).peek ≠ some ' ' then malformed
    spaces
    let stem ← tagSuffix
    if !isSpaceParted (← cursor).rest then malformed
    return .handle handle stem
  | _ =>
    moveTo ((← cursor).skip (!isBreak ·))
    return .remark

/-- A directive. -/
def directive : Scan Unit := do
  closeTo (-1)
  giveUpHere
  allowKey false
  moveTo (← cursor).next
  let word ← name
  if !isSpaceParted (← cursor).rest then malformed
  let t ← directiveBody word
  match (← cursor).skipLine? with
  | some c =>
    moveTo c
    emit t
  | none => malformed

/-- A block of lines. -/
def block (fold : Bool) : Scan Unit := do
  allowKey true
  giveUpHere
  let l ← get
  let (text, c) ← Written.block fold l.indent l.cursor
  moveTo c
  emit (.scalar text false)

/-- A text in quotes. -/
def quoted (double : Bool) : Scan Unit := do
  remember
  allowKey false
  let (text, c) ← Written.quoted double (← cursor)
  moveTo c
  emit (.scalar text false)

/-- A text without quotes. -/
def plain : Scan Unit := do
  remember
  let l ← get
  let (text, c, broken) := Written.plain (l.depth != 0) l.indent l.cursor
  allowKey broken
  moveTo c
  emit (.scalar text true)

/-- Characters that start no text without quotes. -/
def isIndicator (c : Char) : Bool :=
  isGap c || isBreak c || c == Char.ofNat 0x60 ||
    "-?:,[]\x7b\x7d#&*!|>'\"%@".toList.contains c

/-- Whether a text without quotes starts here. -/
def startsPlain (flow : Bool) : List Char → Bool
  | [] => false
  | c :: rest =>
    !isIndicator c || (!isParted rest && (c == '-' || (!flow && (c == '?' || c == ':'))))

/-- The next token, if there is one. -/
def token (c : Cursor) (flow : Bool) : Scan Unit :=
  let rest := c.rest.drop 1
  match c.rest.headD ' ' with
  | '[' => openBracket .flowList
  | '\x7b' => openBracket .flowMapping
  | ']' => closeBracket .flowListEnd
  | '\x7d' => closeBracket .flowMappingEnd
  | ',' => comma
  | '*' => named .alias
  | '&' => named .anchor
  | '!' => tag
  | '\'' => quoted false
  | '"' => quoted true
  | x =>
    if x == '%' && c.column == 0 then directive
    else if c.column == 0 && startsDocument c.rest then documentMark .documentStart
    else if c.column == 0 && endsDocument c.rest then documentMark .documentEnd
    else if x == '-' && isParted rest then item
    else if x == '?' && (flow || isParted rest) then key
    else if x == ':' && (flow || isParted rest) then value
    else if x == '|' && !flow then block false
    else if x == '>' && !flow then block true
    else if startsPlain flow c.rest then plain
    else malformed

/-- Reads up to the next token and the token, and says whether there was one. -/
def step : Scan Bool := do
  let flow ← inFlow
  let start ← cursor
  let (c, broken) := Cursor.skipLines start.left start
  moveTo c
  if broken && !flow then allowKey true
  giveUp (isStale c)
  closeTo c.column
  if c.atEnd then
    closeTo (-1)
    giveUpHere
    return false
  else
    token c flow
    return true

/-- All tokens. Every token takes a character at least. -/
def all : Nat → Scan Unit
  | 0 => pure ()
  | fuel + 1 => do
    if ← step then all fuel

end Scan

/-- Line ends of files: a carriage return, alone or with a line feed, is a line feed. -/
def plainLines : List Char → List Char
  | [] => []
  | '\r' :: '\n' :: rest => '\n' :: plainLines rest
  | '\r' :: rest => '\n' :: plainLines rest
  | c :: rest => c :: plainLines rest

/-- The tokens of a document. A byte order mark in front is skipped. -/
def tokens (text : String) : List Token :=
  let cs := plainLines text.toList
  if cs.all isAllowed then
    let start : Cursor := { rest := cs, size := cs.length }
    let start := if cs.head? = some '\ufeff' then start.next else start
    match (Scan.all (cs.length + 1)).run { cursor := start } with
    | (.ok _, l) => l.written.reverse
    | (.error t, l) => (.broken t :: l.written).reverse
  else [.broken .malformed]

end Retouch.Yaml
