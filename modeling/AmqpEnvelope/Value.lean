import AmqpEnvelope.Kind
import AmqpEnvelope.Cursor.Primitive
import AmqpEnvelope.Rendering.Basic
import AmqpEnvelope.Transaction

/-!
# Decoded values

What a slot holds after decoding: null, a value of a described type, the encoded bytes of
a composite that no registered type describes, or a nested stream whose type is decided
later.  Values nest, since a signature may carry a slot and so may a record.

Values are compared by content (`Value.same`).  A deferred body counts by its bytes alone:
whether it has been interpreted already makes no difference.  A script keeps renderings of what
it read, so two transcripts are equal when they look alike.
-/

namespace AmqpEnvelope

/-- The encoding of a composite that was kept in place of a value. -/
structure Capture where
  descriptor : Descriptor
  /-- The composite from its marker to the end of its body. -/
  bytes : Bytes
  /-- Where the body starts. -/
  bodyOffset : Nat
  bodyOffset_le : bodyOffset ≤ bytes.length
deriving DecidableEq

namespace Capture

/-- A capture whose body starts at the given place, or nowhere if that lies past the end. -/
def of (descriptor : Descriptor) (bytes : Bytes) (bodyOffset : Nat) : Capture where
  descriptor := descriptor
  bytes := bytes
  bodyOffset := min bodyOffset bytes.length
  bodyOffset_le := Nat.min_le_right _ _

/-- The encoding of the body. -/
def body (c : Capture) : Bytes := c.bytes.drop c.bodyOffset

end Capture

/-- A nested stream with its interpretation, once there is one. -/
structure Deferred (α : Type) where
  bytes : Bytes
  cached : Option α

namespace Deferred

variable {α : Type}

/-- A stream that has not been interpreted. -/
def ofBytes (bytes : Bytes) : Deferred α := ⟨bytes, none⟩

/-- An interpretation is present. -/
def isMaterialized (d : Deferred α) : Bool := d.cached.isSome

/-- Deferred streams are compared by their bytes. -/
def same (a b : Deferred α) : Bool := a.bytes == b.bytes

/-- Apply a function to the interpretation. -/
def map {β : Type} (f : α → β) (d : Deferred α) : Deferred β := ⟨d.bytes, d.cached.map f⟩

end Deferred

/-- What a script read. -/
structure Transcript where
  /-- The name of the type in diagnostics. -/
  typeName : String
  /-- The label of the script. -/
  label : String
  /-- What each step gave, in order. -/
  items : List Rendering
deriving DecidableEq

mutual

/-- What a slot holds. -/
inductive Value where
  | null
  /-- A value of a described type. -/
  | known (value : Known)
  /-- A composite that was not decoded. -/
  | captured (capture : Capture)
  /-- A nested stream whose type is decided later. -/
  | serialized (stream : SerializedBytes)

/-- A value of a described type. -/
inductive Known where
  | instant (value : Instant)
  | localDate (value : LocalDate)
  | duration (value : Duration)
  | currency (value : Currency)
  | className (value : ClassName)
  | publicKey (value : PublicKey)
  | byteSequence (value : ByteSequence)
  | serializedBytes (value : SerializedBytes)
  | privacySalt (value : PrivacySalt)
  | componentGroup (value : ComponentGroup)
  | wireTransaction (value : WireTransaction)
  | signatureMetadata (value : SignatureMetadata)
  | transactionSignature (value : TransactionSignature)
  | signedTransaction (value : SignedTransaction)
  | record (type : RecordType) (fields : List Field)
  | transcript (value : Transcript)

/-- A signature over a transaction, with the signer's key. -/
structure TransactionSignature where
  bytes : Bytes
  signer : PublicKey
  /-- Present when only a part of the transaction was signed. -/
  partialTree : Option Value
  metadata : SignatureMetadata

/-- Signatures and the serialised transaction that they sign.  The transaction stays
serialised until it is asked for. -/
structure SignedTransaction where
  signatures : List TransactionSignature
  body : Deferred WireTransaction

/-- A field of a record. -/
inductive Field where
  | scalar (value : Scalar)
  | slot (value : Value)

end

/-- The values that a target is read to. -/
@[reducible] def Target.Carrier : Target → Type
  | .slot => Value
  | .kind _ => Known

/-! ## Equality by content -/

mutual

/-- The values are equal by content. -/
def Value.same : Value → Value → Bool
  | .null, .null => true
  | .known a, .known b => a.same b
  | .captured a, .captured b => a == b
  | .serialized a, .serialized b => a == b
  | _, _ => false
termination_by structural value => value

/-- The values are of one type and equal by content. -/
def Known.same : Known → Known → Bool
  | .instant a, .instant b => a == b
  | .localDate a, .localDate b => a == b
  | .duration a, .duration b => a == b
  | .currency a, .currency b => a == b
  | .className a, .className b => a == b
  | .publicKey a, .publicKey b => a == b
  | .byteSequence a, .byteSequence b => a == b
  | .serializedBytes a, .serializedBytes b => a == b
  | .privacySalt a, .privacySalt b => a == b
  | .componentGroup a, .componentGroup b => a == b
  | .wireTransaction a, .wireTransaction b => a == b
  | .signatureMetadata a, .signatureMetadata b => a == b
  | .transactionSignature a, .transactionSignature b => a.same b
  | .signedTransaction a, .signedTransaction b => a.same b
  | .record s a, .record t b => s == t && sameFields a b
  | .transcript a, .transcript b => a == b
  | _, _ => false
termination_by structural value => value

/-- The signatures are equal field by field. -/
def TransactionSignature.same : TransactionSignature → TransactionSignature → Bool
  | ⟨bytes, signer, tree, metadata⟩, ⟨bytes', signer', tree', metadata'⟩ =>
      bytes == bytes' && signer == signer' && sameTree tree tree' && metadata == metadata'
termination_by structural signature => signature

/-- The signed transactions have equal signatures and the same serialised body. -/
def SignedTransaction.same : SignedTransaction → SignedTransaction → Bool
  | ⟨signatures, body⟩, ⟨signatures', body'⟩ =>
      sameSignatures signatures signatures' && body.same body'
termination_by structural signed => signed

/-- The fields are equal. -/
def Field.same : Field → Field → Bool
  | .scalar a, .scalar b => a.same b
  | .slot a, .slot b => a.same b
  | _, _ => false
termination_by structural field => field

/-- Both trees are absent, or both are present and equal. -/
def sameTree : Option Value → Option Value → Bool
  | none, none => true
  | some a, some b => a.same b
  | _, _ => false
termination_by structural tree => tree

/-- The lists are equal signature by signature. -/
def sameSignatures : List TransactionSignature → List TransactionSignature → Bool
  | [], [] => true
  | a :: as, b :: bs => a.same b && sameSignatures as bs
  | _, _ => false
termination_by structural signatures => signatures

/-- The lists are equal field by field. -/
def sameFields : List Field → List Field → Bool
  | [], [] => true
  | a :: as, b :: bs => a.same b && sameFields as bs
  | _, _ => false
termination_by structural fields => fields

end

/-! ## Types of values -/

/-- The types that a held value may be asked for. -/
inductive HeldType where
  | kind (k : Kind)
  /-- A captured composite. -/
  | capture
  /-- What the scripts read whose results go by the given name. -/
  | transcript (typeName : String)
deriving DecidableEq, Repr

/-- What a slot holds, apart from null. -/
inductive Held where
  | known (value : Known)
  | capture (value : Capture)
  | serialized (value : SerializedBytes)

namespace Known

/-- The type of a value. -/
def heldType : Known → HeldType
  | instant _ => .kind .instant
  | localDate _ => .kind .localDate
  | duration _ => .kind .duration
  | currency _ => .kind .currency
  | className _ => .kind .className
  | publicKey _ => .kind .publicKey
  | byteSequence _ => .kind .byteSequence
  | serializedBytes _ => .kind .serializedBytes
  | privacySalt _ => .kind .privacySalt
  | componentGroup _ => .kind .componentGroup
  | wireTransaction _ => .kind .wireTransaction
  | signatureMetadata _ => .kind .signatureMetadata
  | transactionSignature _ => .kind .transactionSignature
  | signedTransaction _ => .kind .signedTransaction
  | record type _ => .kind (.record type)
  | transcript t => .transcript t.typeName

/-- The name of the type in diagnostics. -/
def typeName (value : Known) : String :=
  match value.heldType with
  | .kind k => k.typeName
  | .capture => "opaque"
  | .transcript name => name

end Known

namespace Value

/-- The value is null. -/
def isNull : Value → Bool
  | null => true
  | _ => false

/-- The value is a captured composite. -/
def isCaptured : Value → Bool
  | captured _ => true
  | _ => false

/-- The captured composite, if the value is one. -/
def capture? : Value → Option Capture
  | captured c => some c
  | _ => none

/-- The nested stream, if the value is one. -/
def serialized? : Value → Option SerializedBytes
  | serialized s => some s
  | _ => none

/-- What the value holds, if it is of the type asked for.  A nested stream is of the type
`SerializedBytes`. -/
def downcast? (value : Value) (type : HeldType) : Option Held :=
  match value with
  | null => none
  | known k => if k.heldType = type then some (.known k) else none
  | captured c => if type = .capture then some (.capture c) else none
  | serialized s => if type = .kind .serializedBytes then some (.serialized s) else none

/-- The name of what the value holds, in diagnostics. -/
def typeName : Value → String
  | null => "null"
  | known k => k.typeName
  | captured _ => "opaque"
  | serialized _ => "serialized"

/-- The nested stream or captured composite as a stream to be interpreted later. -/
def deferred? {α : Type} : Value → Option (Deferred α)
  | serialized s => some (.ofBytes s.bytes)
  | captured c => some (.ofBytes c.bytes)
  | _ => none

end Value

end AmqpEnvelope
