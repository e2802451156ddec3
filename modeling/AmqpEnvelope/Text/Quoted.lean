import AmqpEnvelope.Text.Hex
import AmqpEnvelope.Text.Unprintable

/-!
# Quoted texts

The spelling of a text or a character between quotation marks in which every
character is visible: the mark itself and the backslash are escaped, the common
controls have short escapes, and all else without a glyph is written as
`\u{…}` with its code point in hexadecimal.
-/

namespace AmqpEnvelope.Text

/-- One character inside quotation marks of the given kind. -/
def escape (mark c : Char) : List Char :=
  if c = '\x00' then ['\\', '0']
  else if c = '\t' then ['\\', 't']
  else if c = '\n' then ['\\', 'n']
  else if c = '\r' then ['\\', 'r']
  else if c = '\\' || c = mark then ['\\', c]
  else if c.toNat < 0x20 || isUnprintable c then
    ['\\', 'u', '\x7b'] ++ Nat.toDigits 16 c.toNat ++ ['\x7d']
  else [c]

/-- A text in double quotation marks. -/
def quote (text : String) : String :=
  String.ofList ('"' :: text.toList.flatMap (escape '"') ++ ['"'])

/-- A character in single quotation marks. -/
def quoteChar (c : Char) : String :=
  String.ofList ('\'' :: escape '\'' c ++ ['\''])

end AmqpEnvelope.Text
