import AmqpEnvelope.Cursor.Skip

/-!
# Framing

A complete stream may start with a preamble: seven bytes of magic and a section number.
The root object may stand in an envelope, a composite with a numeric descriptor whose
list holds the object, the schema and the transforms.  Only the object is decoded; what
follows it in the envelope is skipped.
-/

namespace AmqpEnvelope

/-- The magic with its version, one zero. -/
def streamMagic : Bytes := [0x63, 0x6f, 0x72, 0x64, 0x61, 0x01, 0x00]

/-- The part of the magic that all versions share. -/
def magicStem : Bytes := streamMagic.take 5

/-- The number of the data section. -/
def dataSection : UInt8 := 0

/-- The descriptor of an envelope. -/
def envelopeDescriptor : Descriptor := .code 0xc562000000000001

namespace Cursor

/-- The section number behind the magic, which has to be that of the data section. -/
def sectionNumber : Decoding Unit := fun c =>
  match rawByte "section id" c with
  | .error _ after => .error (.invalidPreamble .noSection after.position) after
  | .ok id after =>
      if id = dataSection then .ok () after
      else .error (.unsupported (.sectionId id) c.position) after

/-- Read the preamble if there is one; the result says whether there was. -/
def readPreamble (framing : Framing) : Decoding Bool := do
  let c ← get
  if ← strip streamMagic then
    sectionNumber
    return true
  else if magicStem.isPrefixOf c.unread then
    throw (.invalidPreamble (.unsupportedHeader (c.unread.take streamMagic.length)) c.position)
  else if framing.requirePreamble then
    throw (.invalidPreamble .missingMagic c.position)
  else return false

/-- Enter an envelope if the next value is one; the result says whether it was.  The
cursor is left on the object. -/
def enterEnvelope : Decoding Bool := do
  if (← peekDescriptor) = some envelopeDescriptor then
    let _ ← enterComposite
    let c ← get
    if c.remaining = 0 then mismatch .emptyEnvelope c.position
    else return true
  else return false

/-- Skip what follows the object and leave the envelope. -/
def exitEnvelope : Decoding Unit := do
  skipRemaining
  exitComposite

/-- Read a complete stream whose root value is read by the given reader. -/
def rootValue {α : Type} (framing : Framing) (reader : Decoding α) : Decoding α := do
  let _ ← readPreamble framing
  let enveloped ← if framing.unwrapEnvelope then enterEnvelope else pure false
  markRoot
  let value ← reader
  if enveloped then exitEnvelope else pure ()
  let c ← get
  if c.atEnd then return value
  else mismatch (.trailingBytes c.unread.length) c.position

end Cursor

end AmqpEnvelope
