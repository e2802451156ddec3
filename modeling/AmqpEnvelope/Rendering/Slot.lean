import AmqpEnvelope.Rendering.Standard
import AmqpEnvelope.Value

/-!
# Renderings of slots

How the values of slots are rendered.  In a slot the rendering names the type, since the slot
does not; elsewhere the type is understood, and the rendering shows the value alone.
-/

namespace AmqpEnvelope

/-- The rendering of a captured composite. -/
def Capture.rendering (c : Capture) : Rendering :=
  .parts [("kind", .text "opaque"), ("descriptor", c.descriptor.rendering),
    ("bytes", .bytes c.bytes), ("body", .bytes c.body)]

/-- The rendering of a transcript. -/
def Transcript.rendering (t : Transcript) : Rendering :=
  .parts [("label", .text t.label), ("items", .list t.items)]

/-- The rendering of a record whose fields have the given renderings. -/
def RecordType.rendering (type : RecordType) (fields : List Rendering) : Rendering :=
  match type.transparent, fields with
  | true, [field] => field
  | _, _ => .parts ((type.fields.map FieldType.name).zip fields)

mutual

/-- The rendering of what a slot holds. -/
def Value.rendering : Value → Rendering
  | .null => .parts [("kind", .text "null")]
  | .known value =>
      .parts [("kind", .text "known"), ("type", .text value.typeName), ("value", value.rendering)]
  | .captured capture => capture.rendering
  | .serialized stream => .parts [("kind", .text "serialized"), ("bytes", .bytes stream.bytes)]
termination_by structural value => value

/-- The rendering of a value of a described type. -/
def Known.rendering : Known → Rendering
  | .instant value => value.rendering
  | .localDate value => value.rendering
  | .duration value => value.rendering
  | .currency value => value.rendering
  | .className value => value.rendering
  | .publicKey value => value.rendering
  | .byteSequence value => value.rendering
  | .serializedBytes value => value.rendering
  | .privacySalt value => value.rendering
  | .componentGroup value => value.rendering
  | .wireTransaction value => value.rendering
  | .signatureMetadata value => value.rendering
  | .transactionSignature value => value.rendering
  | .signedTransaction value => value.rendering
  | .record type fields => type.rendering (fieldRenderings fields)
  | .transcript value => value.rendering
termination_by structural value => value

/-- The rendering of a signature. -/
def TransactionSignature.rendering : TransactionSignature → Rendering
  | ⟨bytes, signer, tree, metadata⟩ =>
      .parts [("bytes", .bytes bytes), ("by", signer.rendering), ("tree", treeRendering tree),
        ("metadata", metadata.rendering)]
termination_by structural signature => signature

/-- The rendering of a signed transaction, with the keys of its signatures. -/
def SignedTransaction.rendering : SignedTransaction → Rendering
  | ⟨signatures, body⟩ =>
      .parts [("sigs", .list (signatureRenderings signatures)),
        ("signers", .list (signatures.map fun signature => signature.signer.rendering)),
        ("tx_bits", .bytes body.bytes), ("materialized", .flag body.isMaterialized)]
termination_by structural signed => signed

/-- The rendering of a field. -/
def Field.rendering : Field → Rendering
  | .scalar value => value.rendering
  | .slot value => value.rendering
termination_by structural field => field

/-- The rendering of a tree, which may be absent. -/
def treeRendering : Option Value → Rendering
  | none => .null
  | some tree => tree.rendering
termination_by structural tree => tree

/-- The renderings of signatures, in order. -/
def signatureRenderings : List TransactionSignature → List Rendering
  | [] => []
  | signature :: rest => signature.rendering :: signatureRenderings rest
termination_by structural signatures => signatures

/-- The renderings of fields, in order. -/
def fieldRenderings : List Field → List Rendering
  | [] => []
  | field :: rest => field.rendering :: fieldRenderings rest
termination_by structural fields => fields

end

/-- The rendering of a value that was read for a target. -/
def Target.rendering : (t : Target) → t.Carrier → Rendering
  | .slot, value => value.rendering
  | .kind _, value => value.rendering

end AmqpEnvelope
