import AmqpEnvelope.Toml.Reader

/-!
# TOML strings and keys

A string stands in single or double quotation marks, on one line, or over several lines in
three marks.  Between double marks a backslash escapes; between single marks every character
stands for itself.  A string over several lines drops a line end right behind its opening
marks, and may end in up to two marks of its own.

A key is a bare word or a string on one line, and dots join keys to a path.
-/

namespace AmqpEnvelope.Toml

open Reader

/-- A hexadecimal digit. -/
def isHexDigit (c : Char) : Bool :=
  c.isDigit || ('a' ≤ c && c ≤ 'f') || ('A' ≤ c && c ≤ 'F')

/-- The value of a digit in a base up to sixteen. -/
def digitValue (c : Char) : Nat :=
  if c.isDigit then c.toNat - '0'.toNat
  else if 'a' ≤ c then c.toNat - 'a'.toNat + 10
  else c.toNat - 'A'.toNat + 10

/-- The number that digits spell in a base. -/
def numberOf (base : Nat) (digits : List Char) : Nat :=
  digits.foldl (fun value c => value * base + digitValue c) 0

/-- The character that `n` hexadecimal digits name; a surrogate is none. -/
def codePoint (n : Nat) : Reader Char := do
  let value := numberOf 16 (← times n isHexDigit)
  if h : value.isValidChar then return Char.ofNatAux value h else failure

/-- An escaped character, behind the backslash. -/
def escaped : Reader Char := do
  match ← satisfying fun _ => true with
  | 'b' => return '\x08'
  | 't' => return '\t'
  | 'n' => return '\n'
  | 'f' => return '\x0c'
  | 'r' => return '\r'
  | '"' => return '"'
  | '\\' => return '\\'
  | 'u' => codePoint 4
  | 'U' => codePoint 8
  | _ => failure

/-- A character between double marks on one line. -/
def basicChar : Reader Char :=
  satisfying (fun c => isPlain c && c != '"' && c != '\\') <|> (char '\\' *> escaped)

/-- A string in double marks. -/
def basicString : Reader String := do
  char '"'
  let cs ← many basicChar
  char '"'
  return String.ofList cs

/-- A string in single marks. -/
def literalString : Reader String := do
  char '\''
  let cs ← run fun c => isPlain c && c != '\''
  char '\''
  return String.ofList cs

/-! ## Strings over several lines -/

/-- A line end inside a string stands for a line feed, however it is written. -/
def lineBreak : Reader (List Char) := newline *> pure ['\n']

/-- A backslash at the end of a line removes the line end and all white space behind it. -/
def continuation : Reader (List Char) := do
  char '\\'
  space
  newline
  let _ ← many ((do let _ ← run1 isSpace) <|> newline)
  return []

/-- Marks inside a string over several lines: one or two that no third follows. -/
def innerMarks (mark : Char) : Reader (List Char) := fun cs =>
  let marks := cs.takeWhile (· == mark)
  if 0 < marks.length && marks.length < 3 then some (marks, cs.drop marks.length) else none

/-- The marks at the end of a string over several lines: those that close it, and up to two
that still belong to it. -/
def closingMarks (mark : Char) : Reader (List Char) := fun cs =>
  let marks := cs.takeWhile (· == mark)
  if 3 ≤ marks.length && marks.length ≤ 5 then
    some (marks.drop 3, cs.drop marks.length)
  else none

/-- A string over several lines, given its mark and what may stand between the marks. -/
def longString (mark : Char) (piece : Reader (List Char)) : Reader String := do
  word (String.ofList [mark, mark, mark])
  let _ ← maybe newline
  let pieces ← many (piece <|> lineBreak <|> innerMarks mark)
  let last ← closingMarks mark
  return String.ofList (pieces.flatten ++ last)

/-- A string in three double marks. -/
def longBasicString : Reader String :=
  longString '"' (continuation <|> (do return [← basicChar]))

/-- A string in three single marks. -/
def longLiteralString : Reader String :=
  longString '\'' (do return [← satisfying fun c => isPlain c && c != '\''])

/-- A string of any form. -/
def anyString : Reader String :=
  longBasicString <|> longLiteralString <|> basicString <|> literalString

/-! ## Keys -/

/-- The characters of bare keys. -/
def isBareKeyChar (c : Char) : Bool := c.isAlphanum || c == '-' || c == '_'

/-- One key. -/
def simpleKey : Reader String :=
  basicString <|> literalString <|> (do return String.ofList (← run1 isBareKeyChar))

/-- The number of keys that a path has to stay below, and of brackets that may not be open
at once. -/
def nestingBound : Nat := 80

/-- Keys joined by dots: the last key, and the path of the others. -/
def dottedKey : Reader (List String × String) := do
  let keys ← separated1 '.' (space *> simpleKey <* space)
  match keys.reverse with
  | [] => failure
  | key :: path => if keys.length < nestingBound then return (path.reverse, key) else failure

end AmqpEnvelope.Toml
