import AmqpEnvelope.Framing
import AmqpEnvelope.Registry.Basic
import AmqpEnvelope.Value

/-!
# Typed readers

A reader for each described type.  The fields of a type are read in the order in which it
declares them.  A composite is entered by whoever wants the value: a typed field compares the
descriptor with what its type accepts, while dispatch has found the type by the descriptor.

Some types have slots, which may hold any described value.  How the composite in a slot is
decoded is a parameter here, the `Resolver`; `Decode.Dispatch` supplies it.
-/

namespace AmqpEnvelope

/-- How the composite at the cursor is decoded, given its descriptor. -/
abbrev Resolver := Descriptor → Decoding Value

namespace Decode

open Cursor

/-! ## Slots and composites -/

/-- Read a slot: null, or a described value that the resolver decodes. -/
def slot (resolver : Resolver) : Decoding Value := do
  if ← asks Cursor.atNull then
    read .null
    return .null
  else
    match ← peekDescriptor with
    | some descriptor => resolver descriptor
    | none =>
        let c ← get
        mismatch (.slotFormat c.peekByte?) c.position

/-- Begin to read the fields of a type. -/
def begun {α : Type} (k : Kind) (fields : Decoding α) : Decoding α := do
  enterType k.typeName
  fields

/-- Read a composite as a value of a type, which has to accept its descriptor. -/
def composite {α : Type} (registry : Registry) (k : Kind) (fields : Decoding α) :
    Decoding α := do
  let offset ← asks Cursor.position
  let descriptor ← enterComposite
  if registry.accepts k descriptor then
    let value ← begun k fields
    exitComposite
    return value
  else throw (.unexpectedDescriptor k.descriptorText descriptor.text offset)

/-! ## Times, names and bytes -/

/-- Fields of an instant. -/
def instantFields : Decoding Instant := do
  let epochSeconds ← read .long
  let nanos ← read .int
  return ⟨epochSeconds, nanos⟩

/-- Fields of a date. -/
def localDateFields : Decoding LocalDate := do
  let year ← read .uint
  let month ← read .ubyte
  let day ← read .ubyte
  return ⟨year, month, day⟩

/-- Fields of a duration. -/
def durationFields : Decoding Duration := do
  let seconds ← read .ulong
  let nanos ← read .uint
  return ⟨seconds, nanos⟩

/-- Field of a currency. -/
def currencyFields : Decoding Currency := do
  return ⟨← read .string⟩

/-- Field of a class name. -/
def classNameFields : Decoding ClassName := do
  return ⟨← read .string⟩

/-- Field of a byte sequence. -/
def byteSequenceFields : Decoding ByteSequence := do
  return ⟨← read .binary⟩

/-- Field of a nested stream. -/
def serializedBytesFields : Decoding SerializedBytes := do
  return ⟨← read .binary⟩

/-- Field of a salt, which has to have the right length. -/
def privacySaltFields : Decoding PrivacySalt := do
  let offset ← asks Cursor.position
  let bytes ← read .binary
  if bytes.length = PrivacySalt.size then return ⟨bytes⟩
  else mismatch (.saltSize bytes.length) offset

/-! ## Keys and signatures -/

/-- The symbol that every encoded public key carries. -/
def publicKeySymbol : String := "net.corda:java.security.PublicKey"

/-- A public key: a described binary, in which the symbol counts with its namespace. -/
def publicKeyBody : Decoding PublicKey := do
  let _ ← expectSymbol publicKeySymbol
  let x509 ← read .binary
  finishDescribed
  return ⟨x509⟩

/-- Fields of signature metadata. -/
def signatureMetadataFields : Decoding SignatureMetadata := do
  let platformVersion ← read .int
  let schemeNumber ← read .int
  return ⟨platformVersion, schemeNumber⟩

/-- Fields of a transaction signature. -/
def transactionSignatureFields (registry : Registry) (resolver : Resolver) :
    Decoding TransactionSignature := do
  let bytes ← read .binary
  let signer ← begun .publicKey publicKeyBody
  let partialTree ← nullable (slot resolver)
  let metadata ← composite registry .signatureMetadata signatureMetadataFields
  return ⟨bytes, signer, partialTree, metadata⟩

/-! ## Transactions -/

/-- Fields of a component group. -/
def componentGroupFields (registry : Registry) : Decoding ComponentGroup := do
  let components ← listOf (composite registry .byteSequence byteSequenceFields)
  let index ← read .int
  return ⟨index, components⟩

/-- Fields of a wire transaction, whose groups have to be in order. -/
def wireTransactionFields (registry : Registry) : Decoding WireTransaction := do
  let offset ← asks Cursor.position
  let groups ← listOf (composite registry .componentGroup (componentGroupFields registry))
  let salt ← composite registry .privacySalt privacySaltFields
  match WireTransaction.ofGroups groups salt with
  | .ok transaction => return transaction
  | .error fault => throw (.componentOrder fault offset)

/-- Fields of a signed transaction.  Its body stays as it is. -/
def signedTransactionFields (registry : Registry) (resolver : Resolver) :
    Decoding SignedTransaction := do
  let signatures ← listOf
    (composite registry .transactionSignature (transactionSignatureFields registry resolver))
  let body ← composite registry .serializedBytes serializedBytesFields
  return ⟨signatures, .ofBytes body.bytes⟩

/-! ## Records -/

/-- One field of a record. -/
def field (resolver : Resolver) : FieldShape → Decoding Field
  | .scalar p => return .scalar (← readScalar p)
  | .slot => return .slot (← slot resolver)

/-- The fields of a record, in order. -/
def recordFields (resolver : Resolver) : List FieldType → Decoding (List Field)
  | [] => return []
  | type :: rest => do
      let first ← field resolver type.shape
      let others ← recordFields resolver rest
      return first :: others

/-! ## Every type -/

/-- Read what belongs to a type: the fields of a composite that has been entered, or the
whole value if the type is self-describing. -/
def fields (registry : Registry) (resolver : Resolver) : Kind → Decoding Known
  | .instant => .instant <$> instantFields
  | .localDate => .localDate <$> localDateFields
  | .duration => .duration <$> durationFields
  | .currency => .currency <$> currencyFields
  | .className => .className <$> classNameFields
  | .throwable => do throw (.unsupported .throwable (← asks Cursor.position))
  | .publicKey => .publicKey <$> publicKeyBody
  | .byteSequence => .byteSequence <$> byteSequenceFields
  | .serializedBytes => .serializedBytes <$> serializedBytesFields
  | .privacySalt => .privacySalt <$> privacySaltFields
  | .componentGroup => .componentGroup <$> componentGroupFields registry
  | .wireTransaction => .wireTransaction <$> wireTransactionFields registry
  | .signatureMetadata => .signatureMetadata <$> signatureMetadataFields
  | .transactionSignature => .transactionSignature <$> transactionSignatureFields registry resolver
  | .signedTransaction => .signedTransaction <$> signedTransactionFields registry resolver
  | .record type => .record type <$> recordFields resolver type.fields

/-- Read a value of a described type. -/
def kind (registry : Registry) (resolver : Resolver) (k : Kind) : Decoding Known :=
  match k.entry with
  | .selfDescribing => begun k (fields registry resolver k)
  | .dispatched => composite registry k (fields registry resolver k)

end Decode

/-- Read a value for a target. -/
def Decode.target (registry : Registry) (resolver : Resolver) :
    (t : Target) → Decoding t.Carrier
  | .slot => Decode.slot resolver
  | .kind k => Decode.kind registry resolver k

end AmqpEnvelope
