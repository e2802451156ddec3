import AmqpEnvelope.Bytes
import AmqpEnvelope.Kind

/-!
# Scripts

An application that cannot say with a record type how its composites are read gives a
script: a list of cursor steps and what to make of their results.  A script may do to the
cursor whatever a caller could do, so nothing is promised about what it leaves behind.
-/

namespace AmqpEnvelope

/-- One operation on a cursor. -/
inductive Step where
  | read (type : Primitive)
  | beginDescribed
  /-- Begin a described value, then compare its symbol; the frame stays open either way. -/
  | beginExpecting (symbol : String)
  | expectSymbol (symbol : String)
  | finishDescribed
  | enterComposite | exitComposite
  | enterList | exitList
  | enterMap | exitMap
  | skip
  | capture
  | peekByte
  | peekFormat
  | atNull
  | atRootSlot
  | peekDescriptor
  | strip (expected : Bytes)
  | rawByte (what : String)
  | unreadBytes
  | markRoot
  | limits
  | readPreamble
  | enterEnvelope
  | exitEnvelope
  | decode (target : Target)
  | decodeList (target : Target)
  | decodeNullable (target : Target)
  /-- Decode the composite at the cursor, which has to carry the given descriptor. -/
  | decodeAs (descriptor : Descriptor)
deriving DecidableEq

/-- A list of steps that reads a composite. -/
structure Script where
  /-- The name of the constructor in diagnostics. -/
  label : String
  /-- The name of the type of the results. -/
  typeName : String
  /-- How the composite is entered. -/
  entry : EntryMode
  /-- The steps, in order; the first that fails ends the script. -/
  steps : List Step
  /-- The result is null in place of a transcript of what the steps read. -/
  yieldsNull : Bool
  /-- The type that typed fields may take the result for. -/
  produces : Option Kind
deriving DecidableEq

end AmqpEnvelope
