import AmqpEnvelope.Descriptor
import AmqpEnvelope.FormatCode

/-!
# Described types

The types that a decoder knows by name: the standard types, and record types that an
application declares by a descriptor and a list of fields.  Each has one descriptor of its
own, written with or without namespace, and one way of being entered.
-/

namespace AmqpEnvelope

/-- Who enters a composite before its fields are read. -/
inductive EntryMode where
  /-- Whoever decodes the value enters the composite and leaves it again. -/
  | dispatched
  /-- The type's own reader starts at the marker. -/
  | selfDescribing
deriving DecidableEq, Repr

/-- The name of a mode in diagnostic listings. -/
def EntryMode.text : EntryMode → String
  | .dispatched => "Dispatched"
  | .selfDescribing => "SelfDescribing"

/-- What a field of a record type holds. -/
inductive FieldShape where
  /-- A primitive value. -/
  | scalar (type : Primitive)
  /-- Null or any described value. -/
  | slot
deriving DecidableEq, Repr

/-- A field of a record type. -/
structure FieldType where
  name : String
  shape : FieldShape
deriving DecidableEq, Repr

/-- A composite type declared by an application.  A limit: fields in floating point are compared
by their bits and not as numbers. -/
structure RecordType where
  /-- The name of the type in diagnostics. -/
  name : String
  /-- The descriptor, with or without namespace. -/
  descriptorText : String
  /-- The fields in the order in which they are encoded. -/
  fields : List FieldType
  /-- The type only wraps its one field, and its values are rendered as that field is. -/
  transparent : Bool
deriving DecidableEq, Repr

/-- The described types. -/
inductive Kind where
  | instant | localDate | duration
  | currency | className | throwable
  | publicKey
  | byteSequence | serializedBytes | privacySalt
  | componentGroup | wireTransaction
  | signatureMetadata | transactionSignature | signedTransaction
  | record (type : RecordType)
deriving DecidableEq, Repr

namespace Kind

/-- The descriptor as a registration writes it.  Byte sequences are known by the
fingerprint of their schema only. -/
def descriptorText : Kind → String
  | instant => "java.time.Instant"
  | localDate => "java.time.LocalDate"
  | duration => "java.time.Duration"
  | currency => "java.util.Currency"
  | className => "java.lang.Class"
  | throwable => "java.lang.Throwable"
  | publicKey => "java.security.PublicKey"
  | byteSequence => "net.corda:pgT0Kc3t/bvnzmgu/nb4Cg=="
  | serializedBytes => "net.corda.core.serialization.SerializedBytes"
  | privacySalt => "net.corda.core.contracts.PrivacySalt"
  | componentGroup => "net.corda.core.transactions.ComponentGroup"
  | wireTransaction => "net.corda.core.transactions.WireTransaction"
  | signatureMetadata => "net.corda.core.crypto.SignatureMetadata"
  | transactionSignature => "net.corda.core.crypto.TransactionSignature"
  | signedTransaction => "net.corda.core.transactions.SignedTransaction"
  | record type => type.descriptorText

/-- The key of the type. -/
def descriptor (k : Kind) : Descriptor := Descriptor.ofWireSymbol k.descriptorText

/-- The name of the type in diagnostics. -/
def typeName : Kind → String
  | instant => "types::common::values::Instant"
  | localDate => "types::common::values::LocalDate"
  | duration => "types::common::values::Duration"
  | currency => "types::common::values::Currency"
  | className => "types::common::values::ClassName"
  | throwable => "codec::known::lang::Throwable"
  | publicKey => "types::common::values::PublicKey"
  | byteSequence => "types::common::values::OpaqueBytes"
  | serializedBytes => "types::common::values::SerializedBytes"
  | privacySalt => "types::common::values::PrivacySalt"
  | componentGroup => "types::common::transactions::ComponentGroup"
  | wireTransaction => "types::common::transactions::WireTransaction"
  | signatureMetadata => "types::common::values::SignatureMetadata"
  | transactionSignature => "codec::known::security::TransactionSignature"
  | signedTransaction => "codec::known::transactions::SignedTransaction"
  | record type => type.name

/-- How the type is entered.  A public key is a described binary and no composite, and an
exception is refused before anything of it is read. -/
def entry : Kind → EntryMode
  | publicKey => .selfDescribing
  | throwable => .selfDescribing
  | _ => .dispatched

end Kind

/-- What a reader may be asked for: a value of a described type, or whatever a slot
holds. -/
inductive Target where
  | slot
  | kind (k : Kind)
deriving DecidableEq, Repr

end AmqpEnvelope
