import AmqpEnvelope.Descriptor
import AmqpEnvelope.FormatCode
import AmqpEnvelope.Transaction

/-!
# Decode errors

An error is a cause and the offset of the byte it refers to.  `Mismatch` lists the
ways in which bytes fail to be what a reader asks for; each has three texts, what
was expected, what was found, and in which context.  `DecodeError.message` is the
only place that puts an error into words.

An error that arises inside a nested value reaches the caller unchanged.
-/

namespace AmqpEnvelope

/-- The kinds of values that are open while their parts are read. -/
inductive FrameKind where
  | described | list | map
deriving DecidableEq, Repr

/-- The name of an open value in messages. -/
def FrameKind.name : FrameKind → String
  | .described => "described type"
  | .list => "list"
  | .map => "map"

/-- The bytes are not what the reader asks for. -/
inductive Mismatch where
  /-- The format code is unassigned or belongs to another type. -/
  | wrongFormat (expected : String) (code : UInt8)
  /-- The value needs more bytes than there are before its bound. -/
  | truncated (what : String) (needed available : Nat)
  /-- All elements of the open value have been read. -/
  | exhausted (kind : FrameKind) (what : String) (count : Nat)
  /-- The payload of a boolean is neither 0 nor 1. -/
  | booleanByte (byte : UInt8)
  /-- The payload of a character is no Unicode scalar value. -/
  | scalarValue (value : Nat)
  /-- The payload of a text is not UTF-8. -/
  | invalidUtf8 (what : String) (validUpTo : Nat)
  /-- A size prefix does not even cover the count behind it. -/
  | sizeBelowCount (what : String) (width size : Nat)
  /-- A container declares more elements than it has bytes. -/
  | countAboveSize (what : String) (count bytes : Nat)
  /-- A map has an odd number of elements. -/
  | oddMapCount (count : Nat)
  /-- Nothing is open, or something of another kind. -/
  | unbalancedExit (kind : FrameKind) (found : Option (FrameKind × Nat))
  /-- A container is left before all its elements were read. -/
  | unreadElements (kind : FrameKind) (start count consumed : Nat)
  /-- A container is left away from its declared end. -/
  | wrongEnd (kind : FrameKind) (start declared position : Nat)
  /-- A slot holds neither null nor a described value. -/
  | slotFormat (code : Option UInt8)
  /-- An envelope has no object. -/
  | emptyEnvelope
  /-- Bytes follow the root value. -/
  | trailingBytes (count : Nat)
  /-- A salt has the wrong length. -/
  | saltSize (size : Nat)
  /-- A script asks for the very composite that it is to read. -/
  | selfReference
  /-- Any other mismatch, in words. -/
  | other (expected actual context : String)
deriving DecidableEq, Repr

namespace Mismatch

/-- What was expected. -/
def expected : Mismatch → String
  | wrongFormat expected _ => expected
  | truncated what needed _ => s!"{needed} bytes of {what}"
  | exhausted kind _ _ => s!"end of {kind.name}"
  | booleanByte _ => "boolean byte 0x00 or 0x01"
  | scalarValue _ => "Unicode scalar value"
  | invalidUtf8 what _ => s!"UTF-8 {what}"
  | sizeBelowCount what width _ => s!"{what} size of at least {width}"
  | countAboveSize what count _ => s!"{what} body holding {count} elements"
  | oddMapCount _ => "even map element count"
  | unbalancedExit kind _ => s!"open {kind.name}"
  | unreadElements _ _ count _ => s!"{count} elements read"
  | wrongEnd _ _ declared _ => s!"position {declared}"
  | slotFormat _ => "described type or null"
  | emptyEnvelope => "envelope object"
  | trailingBytes _ => "end of input"
  | saltSize _ => s!"{PrivacySalt.size} byte salt"
  | selfReference => "part of the composite"
  | other expected _ _ => expected

/-- What was found. -/
def actual : Mismatch → String
  | wrongFormat _ code => formatText code
  | truncated _ _ available => s!"{available} bytes"
  | exhausted _ what count => s!"another {what} (all {count} elements consumed)"
  | booleanByte byte => Hex.number 2 byte.toNat
  | scalarValue value => Hex.number 1 value
  | invalidUtf8 _ validUpTo => s!"invalid UTF-8 at byte {validUpTo}"
  | sizeBelowCount _ _ size => toString size
  | countAboveSize _ _ bytes => s!"{bytes} bytes"
  | oddMapCount count => toString count
  | unbalancedExit _ none => "no open container"
  | unbalancedExit _ (some (kind, start)) => s!"open {kind.name} started at offset {start}"
  | unreadElements _ _ _ consumed => s!"{consumed} elements read"
  | wrongEnd _ _ _ position => s!"position {position}"
  | slotFormat none => "end of input"
  | slotFormat (some code) => s!"format code {Hex.number 2 code.toNat}"
  | emptyEnvelope => "empty envelope"
  | trailingBytes count => s!"{count} trailing bytes"
  | saltSize size => s!"{size} bytes"
  | selfReference => "the composite itself"
  | other _ actual _ => actual

/-- In which context. -/
def context : Mismatch → String
  | wrongFormat _ _ => "format code does not match field kind"
  | truncated _ _ 0 => "input ends before value"
  | truncated _ _ _ => "value extends past its container or the end of input"
  | exhausted _ _ _ => "element count exhausted"
  | booleanByte _ => "boolean payload"
  | scalarValue _ => "char payload"
  | invalidUtf8 what _ => s!"{what} payload"
  | sizeBelowCount _ _ _ => "size must cover the count field"
  | countAboveSize _ _ _ => "element count exceeds declared size"
  | oddMapCount _ => "map header"
  | unbalancedExit _ _ => "unbalanced exit"
  | unreadElements kind start _ _ => s!"exit of {kind.name} started at offset {start}"
  | wrongEnd kind start _ _ => s!"exit of {kind.name} started at offset {start}"
  | slotFormat _ => "polymorphic slot"
  | emptyEnvelope => "envelope"
  | trailingBytes _ => "after root value"
  | saltSize _ => "PrivacySalt"
  | selfReference => "script"
  | other _ _ context => context

end Mismatch

/-- The bounds that a stream can exceed. -/
inductive LimitKind where
  | nestingDepth | collectionLength
deriving DecidableEq, Repr

/-- The name of a bound in messages. -/
def LimitKind.name : LimitKind → String
  | .nestingDepth => "nesting depth"
  | .collectionLength => "collection length"

/-- Why a stream does not start with a usable preamble. -/
inductive PreambleFault where
  /-- The stream ends behind the magic. -/
  | noSection
  /-- The magic has another version. -/
  | unsupportedHeader (header : Bytes)
  /-- A preamble is required and there is none. -/
  | missingMagic
  /-- Any other fault, in words. -/
  | other (reason : String)
deriving DecidableEq, Repr

/-- The wording of a preamble fault. -/
def PreambleFault.reason : PreambleFault → String
  | .noSection => "stream ends before section id"
  | .unsupportedHeader header => s!"unsupported serialisation header {Hex.encode header}"
  | .missingMagic => "missing serialisation magic"
  | .other reason => reason

/-- The part of a stream that is deliberately not decoded. -/
inductive Unsupported where
  /-- A section other than the data section. -/
  | sectionId (id : UInt8)
  /-- An exception payload. -/
  | throwable
  /-- Anything else, in words. -/
  | other (subject reason : String)
deriving DecidableEq, Repr

namespace Unsupported

/-- What is not decoded. -/
def subject : Unsupported → String
  | .sectionId id => s!"section {id}"
  | .throwable => "java.lang.Throwable"
  | .other subject _ => subject

/-- Why it is not decoded. -/
def reason : Unsupported → String
  | .sectionId _ => "only the data section can be decoded"
  | .throwable => "exception payloads carry platform stack state and are never decoded"
  | .other _ reason => reason

end Unsupported

/-- Why decoding failed. -/
inductive DecodeError where
  /-- No type is registered for the descriptor, and unknown types are rejected. -/
  | unknownDescriptor (descriptor : Descriptor) (offset : Nat)
  /-- The bytes are not what the reader asks for. -/
  | mismatch (cause : Mismatch) (offset : Nat)
  /-- A composite carries another descriptor than the reader requires. -/
  | unexpectedDescriptor (expected actual : String) (offset : Nat)
  /-- The value is deliberately not decoded. -/
  | unsupported (subject : Unsupported) (offset : Nat)
  /-- Component groups are not at their ordinal positions. -/
  | componentOrder (fault : OrderFault) (offset : Nat)
  /-- The stream does not start with a usable preamble. -/
  | invalidPreamble (fault : PreambleFault) (offset : Nat)
  /-- A bound is exceeded. -/
  | limitExceeded (limit : LimitKind) (actual bound : Nat) (offset : Nat)
deriving DecidableEq

namespace DecodeError

/-- The byte offset that the error refers to. -/
def offset : DecodeError → Nat
  | unknownDescriptor _ offset => offset
  | mismatch _ offset => offset
  | unexpectedDescriptor _ _ offset => offset
  | unsupported _ offset => offset
  | componentOrder _ offset => offset
  | invalidPreamble _ offset => offset
  | limitExceeded _ _ _ offset => offset

/-- The error in words. -/
def message : DecodeError → String
  | unknownDescriptor descriptor offset =>
      s!"Unknown descriptor {descriptor.text} at offset {offset}: no constructor registered"
  | mismatch cause offset =>
      s!"Structural mismatch at offset {offset}: expected {cause.expected}, found {cause.actual} (context: {cause.context})"
  | unexpectedDescriptor expected actual offset =>
      s!"Unexpected descriptor at offset {offset}: expected {expected}, found {actual}"
  | unsupported subject offset =>
      s!"Unsupported type {subject.subject} at offset {offset}: {subject.reason}"
  | componentOrder fault offset =>
      s!"Component order violated in transaction at offset {offset}: {fault.message}"
  | invalidPreamble fault offset => s!"Invalid preamble at offset {offset}: {fault.reason}"
  | limitExceeded limit actual bound offset =>
      s!"Limit exceeded at offset {offset}: {limit.name} is {actual}, limit is {bound}"

/-- The texts of the error and of what caused it, outermost first. -/
def chain : DecodeError → List String
  | componentOrder fault offset => [(componentOrder fault offset).message, fault.message]
  | e => [e.message]

/-- A bound is exceeded. -/
def isLimit : DecodeError → Bool
  | limitExceeded _ _ _ _ => true
  | _ => false

end DecodeError

end AmqpEnvelope
