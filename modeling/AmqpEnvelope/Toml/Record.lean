import AmqpEnvelope.Settings.Document
import AmqpEnvelope.Toml.Document

/-!
# Records in TOML documents

What values of a document are read as, apart from their own type: records, counts, switches and
words.  Together with the parser this is the reader of TOML documents, `Toml.documents`.
-/

namespace AmqpEnvelope.Toml

namespace Value

/-- A record.  A table has fields by name, an array by position.  A date or time has none, but
stands where a table may stand. -/
def record? (fields : List String) : Value → Option (String → Option Value)
  | .table _ entries => some fun name => entries.lookup name
  | .array elements => some fun name => elements[fields.idxOf name]?
  | .tables earlier last =>
      some fun name => ((earlier ++ [last]).map (.table .header ·))[fields.idxOf name]?
  | .moment => some fun _ => none
  | _ => none

/-- A count: an integer that is not negative. -/
def count? : Value → Option Nat
  | .integer value => if 0 ≤ value then some value.toNat else none
  | _ => none

/-- A switch. -/
def flag? : Value → Option Bool
  | .boolean value => some value
  | _ => none

/-- An array or table without content. -/
def isEmpty : Value → Bool
  | .array elements => elements.isEmpty
  | .table _ entries => entries.isEmpty
  | _ => false

/-- One of some words: a text, or a table with the word as its only key and nothing behind it. -/
def word? (words : List String) : Value → Option String
  | .string word => if word ∈ words then some word else none
  | .table _ [(word, content)] => if word ∈ words && content.isEmpty then some word else none
  | _ => none

end Value

/-- The reader of TOML documents. -/
def documents : DocumentReader where
  Value := Value
  parse? source := (parse? source).map (.table .header)
  record? := Value.record?
  count? := Value.count?
  flag? := Value.flag?
  word? := Value.word?

end AmqpEnvelope.Toml
