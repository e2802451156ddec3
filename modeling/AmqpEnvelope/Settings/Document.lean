/-!
# Documents

The settings can be given by a document.  They do not say how documents are written: they are read
through a `DocumentReader`, which parses texts and knows the values that settings are made of.
-/

namespace AmqpEnvelope

/-- What reads documents: a parser, and for each type of values in the settings a reader of it. -/
structure DocumentReader where
  /-- The values that documents consist of. -/
  Value : Type
  /-- The value that a document is as a whole; nothing if the text is no document. -/
  parse? : (source : String) → Option Value
  /-- The record of some fields, in their order: what stands for each of them, if anything.
  Nothing if the value is no record. -/
  record? : (fields : List String) → Value → Option (String → Option Value)
  /-- A count of up to 64 bits. -/
  count? : Value → Option Nat
  /-- A switch. -/
  flag? : Value → Option Bool
  /-- The one of some words that the value names. -/
  word? : (words : List String) → Value → Option String

end AmqpEnvelope
