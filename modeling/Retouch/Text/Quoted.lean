import Retouch.Text.Printable

/-!
# Quoted text

Written forms of a text. `quoted` is the form for readers: single quotes, or double quotes where
that saves escaping, and only what cannot be shown is escaped. `jsonQuoted` is the JSON string in
ASCII, where a code point beyond sixteen bits is a pair of surrogates; `wideJsonQuoted` is the JSON
string that escapes no more than it must.
-/

namespace Retouch.Text

/-- The digits of a code point in base sixteen, to a given width. -/
def hex (width : Nat) (code : Nat) : String :=
  let digits := Nat.toDigits 16 code
  String.ofList (List.replicate (width - digits.length) '0' ++ digits)

/-- One character between quotes of the given kind. -/
def quotedChar (quote c : Char) : String :=
  if c = quote ∨ c = '\\' then String.ofList ['\\', c]
  else if c = '\n' then "\\n"
  else if c = '\t' then "\\t"
  else if c = '\r' then "\\r"
  else if isShown c then String.ofList [c]
  else if c.toNat < 0x100 then "\\x" ++ hex 2 c.toNat
  else if c.toNat < 0x10000 then "\\u" ++ hex 4 c.toNat
  else "\\U" ++ hex 8 c.toNat

/-- Double quotes are used only around a text with a single quote and no double one. -/
def quoteFor (s : String) : Char :=
  if s.toList.contains '\'' && !s.toList.contains '"' then '"' else '\''

/-- A text in quotes. -/
def quoted (s : String) : String :=
  let quote := quoteFor s
  let mark := String.ofList [quote]
  mark ++ String.join (s.toList.map (quotedChar quote)) ++ mark

/-- One character of a JSON string, in ASCII. -/
def jsonChar (c : Char) : String :=
  if c = '"' then "\\\""
  else if c = '\\' then "\\\\"
  else if c = '\n' then "\\n"
  else if c = '\r' then "\\r"
  else if c = '\t' then "\\t"
  else if c.toNat = 0x08 then "\\b"
  else if c.toNat = 0x0c then "\\f"
  else if 0x20 ≤ c.toNat ∧ c.toNat ≤ 0x7e then String.ofList [c]
  else if c.toNat < 0x10000 then "\\u" ++ hex 4 c.toNat
  else
    let offset := c.toNat - 0x10000
    "\\u" ++ hex 4 (0xd800 + offset / 0x400) ++ "\\u" ++ hex 4 (0xdc00 + offset % 0x400)

/-- A text as a JSON string. -/
def jsonQuoted (s : String) : String :=
  "\"" ++ String.join (s.toList.map jsonChar) ++ "\""

/-- One character of a JSON string that may hold any character. -/
def wideJsonChar (c : Char) : String :=
  if 0x7f ≤ c.toNat then String.ofList [c] else jsonChar c

/-- A text as a JSON string with characters beyond ASCII in it. -/
def wideJsonQuoted (s : String) : String :=
  "\"" ++ String.join (s.toList.map wideJsonChar) ++ "\""

end Retouch.Text
