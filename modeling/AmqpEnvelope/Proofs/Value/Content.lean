import AmqpEnvelope.Copy
import AmqpEnvelope.Proofs.Decode.Kept

/-!
# Equality by content

Two values are equal if they have the same content, and the content of a value is what is left of
it without the interpretations of deferred streams (`Value.same_iff`).  So equality is an
equivalence, and it does not matter which streams have been interpreted when values are compared.
-/

namespace AmqpEnvelope

/-! ## Content -/

mutual

/-- The value as it would be if no stream in it had been interpreted. -/
def Value.content : Value → Value
  | .null => .null
  | .known value => .known value.content
  | .captured capture => .captured capture
  | .serialized stream => .serialized stream
termination_by structural value => value

/-- The content of a value of a described type. -/
def Known.content : Known → Known
  | .transactionSignature signature => .transactionSignature signature.content
  | .signedTransaction signed => .signedTransaction signed.content
  | .record type fields => .record type (fieldsContent fields)
  | value => value
termination_by structural value => value

/-- The content of a signature. -/
def TransactionSignature.content : TransactionSignature → TransactionSignature
  | ⟨bytes, signer, tree, metadata⟩ => ⟨bytes, signer, treeContent tree, metadata⟩
termination_by structural signature => signature

/-- The content of a signed transaction: its body counts by its bytes. -/
def SignedTransaction.content : SignedTransaction → SignedTransaction
  | ⟨signatures, body⟩ => ⟨signaturesContent signatures, .ofBytes body.bytes⟩
termination_by structural signed => signed

/-- The content of a field. -/
def Field.content : Field → Field
  | .scalar value => .scalar value
  | .slot value => .slot value.content
termination_by structural field => field

/-- The content of a tree, if there is one. -/
def treeContent : Option Value → Option Value
  | none => none
  | some value => some value.content
termination_by structural tree => tree

/-- The contents of signatures. -/
def signaturesContent : List TransactionSignature → List TransactionSignature
  | [] => []
  | signature :: rest => signature.content :: signaturesContent rest
termination_by structural signatures => signatures

/-- The contents of fields. -/
def fieldsContent : List Field → List Field
  | [] => []
  | field :: rest => field.content :: fieldsContent rest
termination_by structural fields => fields

end

theorem signaturesContent_eq_map (signatures : List TransactionSignature) :
    signaturesContent signatures = signatures.map TransactionSignature.content := by
  induction signatures with
  | nil => rfl
  | cons signature rest ih => rw [signaturesContent, ih, List.map_cons]

theorem fieldsContent_eq_map (fields : List Field) :
    fieldsContent fields = fields.map Field.content := by
  induction fields with
  | nil => rfl
  | cons field rest ih => rw [fieldsContent, ih, List.map_cons]

/-! ## Equality -/

theorem Scalar.same_iff {a b : Scalar} : a.same b = true ↔ a = b := by
  obtain ⟨p, x⟩ := a
  obtain ⟨q, y⟩ := b
  cases p <;> cases q <;> simp [Scalar.same]

theorem Deferred.same_iff {α : Type} {a b : Deferred α} :
    a.same b = true ↔ (ofBytes a.bytes : Deferred α) = ofBytes b.bytes := by
  simp [same, ofBytes]

mutual

theorem Value.same_iff : (a b : Value) → (a.same b = true ↔ a.content = b.content)
  | .null, b => by cases b <;> simp [Value.same, Value.content]
  | .known k, b => by cases b <;> simp [Value.same, Value.content, Known.same_iff k]
  | .captured _, b => by cases b <;> simp [Value.same, Value.content]
  | .serialized _, b => by cases b <;> simp [Value.same, Value.content]

theorem Known.same_iff : (a b : Known) → (a.same b = true ↔ a.content = b.content)
  | .instant _, b => by cases b <;> simp [Known.same, Known.content]
  | .localDate _, b => by cases b <;> simp [Known.same, Known.content]
  | .duration _, b => by cases b <;> simp [Known.same, Known.content]
  | .currency _, b => by cases b <;> simp [Known.same, Known.content]
  | .className _, b => by cases b <;> simp [Known.same, Known.content]
  | .publicKey _, b => by cases b <;> simp [Known.same, Known.content]
  | .byteSequence _, b => by cases b <;> simp [Known.same, Known.content]
  | .serializedBytes _, b => by cases b <;> simp [Known.same, Known.content]
  | .privacySalt _, b => by cases b <;> simp [Known.same, Known.content]
  | .componentGroup _, b => by cases b <;> simp [Known.same, Known.content]
  | .wireTransaction _, b => by cases b <;> simp [Known.same, Known.content]
  | .signatureMetadata _, b => by cases b <;> simp [Known.same, Known.content]
  | .transactionSignature s, b => by
      cases b <;> simp [Known.same, Known.content, TransactionSignature.same_iff s]
  | .signedTransaction s, b => by
      cases b <;> simp [Known.same, Known.content, SignedTransaction.same_iff s]
  | .record _ fields, b => by
      cases b <;> simp [Known.same, Known.content, sameFields_iff fields]
  | .transcript _, b => by cases b <;> simp [Known.same, Known.content]

theorem TransactionSignature.same_iff :
    (a b : TransactionSignature) → (a.same b = true ↔ a.content = b.content)
  | ⟨_, _, tree, _⟩, ⟨_, _, tree', _⟩ => by
      simp [TransactionSignature.same, TransactionSignature.content, sameTree_iff tree tree',
        and_assoc]

theorem SignedTransaction.same_iff :
    (a b : SignedTransaction) → (a.same b = true ↔ a.content = b.content)
  | ⟨signatures, _⟩, ⟨signatures', _⟩ => by
      simp [SignedTransaction.same, SignedTransaction.content,
        sameSignatures_iff signatures signatures', Deferred.same_iff]

theorem Field.same_iff : (a b : Field) → (a.same b = true ↔ a.content = b.content)
  | .scalar _, b => by cases b <;> simp [Field.same, Field.content, Scalar.same_iff]
  | .slot v, b => by cases b <;> simp [Field.same, Field.content, Value.same_iff v]

theorem sameTree_iff : (a b : Option Value) → (sameTree a b = true ↔ treeContent a = treeContent b)
  | none, b => by cases b <;> simp [sameTree, treeContent]
  | some v, b => by cases b <;> simp [sameTree, treeContent, Value.same_iff v]

theorem sameSignatures_iff : (as bs : List TransactionSignature) →
    (sameSignatures as bs = true ↔ signaturesContent as = signaturesContent bs)
  | [], bs => by cases bs <;> simp [sameSignatures, signaturesContent]
  | a :: as, bs => by
      cases bs <;> simp [sameSignatures, signaturesContent, TransactionSignature.same_iff a,
        sameSignatures_iff as]

theorem sameFields_iff : (as bs : List Field) →
    (sameFields as bs = true ↔ fieldsContent as = fieldsContent bs)
  | [], bs => by cases bs <;> simp [sameFields, fieldsContent]
  | a :: as, bs => by
      cases bs <;> simp [sameFields, fieldsContent, Field.same_iff a, sameFields_iff as]

end

end AmqpEnvelope
