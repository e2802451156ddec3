import AmqpEnvelope.Value

/-!
# Copying values and taking them apart

A value can be copied, with all the values in it and with the interpretations of deferred streams
that are present.  And what it holds can be taken out, if that is of the type that is asked for;
the value is used up then, so whoever wants to keep it takes a copy apart.
-/

namespace AmqpEnvelope

/-- A copy of a deferred stream, with the interpretation if there is one. -/
def Deferred.copy {α : Type} (d : Deferred α) : Deferred α where
  bytes := d.bytes
  cached := d.cached

mutual

/-- A copy of the value. -/
def Value.copy : Value → Value
  | .null => .null
  | .known value => .known value.copy
  | .captured capture => .captured capture
  | .serialized stream => .serialized stream
termination_by structural value => value

/-- A copy of a value of a described type.  Most types hold plain data. -/
def Known.copy : Known → Known
  | .transactionSignature signature => .transactionSignature signature.copy
  | .signedTransaction signed => .signedTransaction signed.copy
  | .record type fields => .record type (copyFields fields)
  | value => value
termination_by structural value => value

/-- A copy of a signature with its tree. -/
def TransactionSignature.copy : TransactionSignature → TransactionSignature
  | ⟨bytes, signer, tree, metadata⟩ => ⟨bytes, signer, copyTree tree, metadata⟩
termination_by structural signature => signature

/-- A copy of a signed transaction. -/
def SignedTransaction.copy : SignedTransaction → SignedTransaction
  | ⟨signatures, body⟩ => ⟨copySignatures signatures, body.copy⟩
termination_by structural signed => signed

/-- A copy of a field. -/
def Field.copy : Field → Field
  | .scalar value => .scalar value
  | .slot value => .slot value.copy
termination_by structural field => field

/-- A copy of a tree, if there is one. -/
def copyTree : Option Value → Option Value
  | none => none
  | some value => some value.copy
termination_by structural tree => tree

/-- Copies of signatures. -/
def copySignatures : List TransactionSignature → List TransactionSignature
  | [] => []
  | signature :: rest => signature.copy :: copySignatures rest
termination_by structural signatures => signatures

/-- Copies of fields. -/
def copyFields : List Field → List Field
  | [] => []
  | field :: rest => field.copy :: copyFields rest
termination_by structural fields => fields

end

/-- The type of what is held. -/
def Held.type : Held → HeldType
  | .known value => value.heldType
  | .capture _ => .capture
  | .serialized _ => .kind .serializedBytes

/-- What the value holds, whatever type that is of. -/
def Value.held? : Value → Option Held
  | .null => none
  | .known value => some (.known value)
  | .captured capture => some (.capture capture)
  | .serialized stream => some (.serialized stream)

/-- Take what the value holds, if it is of the type asked for. -/
def Value.take? (value : Value) (type : HeldType) : Option Held :=
  match value.held? with
  | some held => if held.type = type then some held else none
  | none => none

end AmqpEnvelope
