import AmqpEnvelope.Toml.Value

/-!
# Reading TOML text

A `Reader` takes characters from the front of a text and answers with a value and the rest,
or fails.  This module holds the readers that the grammar is built from, and those of white
space and comments.

Repetition needs no bound: it goes on only while the rest gets shorter.
-/

namespace AmqpEnvelope.Toml

/-- A reader of the front of a text. -/
abbrev Reader (α : Type) := StateT (List Char) Option α

namespace Reader

/-- The next character, which stays where it is. -/
def peek? : Reader (Option Char) := fun cs => some (cs.head?, cs)

/-- A character that satisfies a test. -/
def satisfying (test : Char → Bool) : Reader Char
  | c :: rest => if test c then some (c, rest) else none
  | [] => none

/-- A given character. -/
def char (expected : Char) : Reader Unit := do
  let _ ← satisfying (· == expected)

/-- The characters of a word, in order. -/
def word (expected : String) : Reader Unit := fun cs =>
  if expected.toList.isPrefixOf cs then some ((), cs.drop expected.length) else none

/-- As many characters as satisfy a test. -/
def run (test : Char → Bool) : Reader (List Char) := fun cs =>
  some (cs.takeWhile test, cs.dropWhile test)

/-- As many characters as satisfy a test, and at least one. -/
def run1 (test : Char → Bool) : Reader (List Char) := do
  let first ← satisfying test
  return first :: (← run test)

/-- Exactly `n` characters that satisfy a test. -/
def times (n : Nat) (test : Char → Bool) : Reader (List Char) := fun cs =>
  let taken := cs.take n
  if taken.length = n && taken.all test then some (taken, cs.drop n) else none

/-- Nothing is left. -/
def done : Reader Unit := fun cs => if cs.isEmpty then some ((), cs) else none

/-- What a reader reads, or nothing if it fails. -/
def maybe {α : Type} (reader : Reader α) : Reader (Option α) := fun cs =>
  match reader cs with
  | some (value, rest) => some (some value, rest)
  | none => some (none, cs)

/-- Repeat a reader until it fails, in front of earlier results which are held latest first. -/
def repeated {α : Type} (reader : Reader α) (results : List α) (cs : List Char) :
    List α × List Char :=
  match reader cs with
  | none => (results.reverse, cs)
  | some (value, rest) =>
      if rest.length < cs.length then repeated reader (value :: results) rest
      else ((value :: results).reverse, rest)
termination_by cs.length

/-- Repeat a reader until it fails. -/
def many {α : Type} (reader : Reader α) : Reader (List α) := fun cs =>
  some (repeated reader [] cs)

/-- One or more values with a separator between them. -/
def separated1 {α : Type} (separator : Char) (reader : Reader α) : Reader (List α) := do
  let first ← reader
  return first :: (← many (char separator *> reader))

/-! ## White space, line ends and comments -/

/-- Blanks and tabs. -/
def isSpace (c : Char) : Bool := c == ' ' || c == '\t'

/-- Skip blanks and tabs. -/
def space : Reader Unit := do
  let _ ← run isSpace

/-- The end of a line. -/
def newline : Reader Unit := char '\n' <|> word "\r\n"

/-- Characters that may stand for themselves: all but the controls, of which only the tab
may. -/
def isPlain (c : Char) : Bool := c == '\t' || (0x20 ≤ c.toNat && c.toNat != 0x7f)

/-- A comment, up to the end of its line. -/
def comment : Reader Unit := do
  char '#'
  let _ ← run isPlain

/-- The end of a line or of the document, perhaps behind a comment. -/
def lineEnd : Reader Unit := do
  space
  let _ ← maybe comment
  newline <|> done

/-- White space, line ends and comments inside brackets. -/
def filler : Reader Unit := do
  let _ ← many ((do let _ ← run1 isSpace) <|> newline <|> comment)

end Reader

end AmqpEnvelope.Toml
