import AmqpEnvelope.Decode.Deferred
import AmqpEnvelope.Text.Column

/-!
# Reports

A summary of a decoded root value: its type, and for transactions the signatures and the
component groups.  A signed transaction is reported with the groups of its body, so its body
has to decode as well.
-/

namespace AmqpEnvelope.Report

/-- The lines of a transaction's component groups. -/
def groupLines (transaction : WireTransaction) : List String :=
  s!"component groups: {transaction.groups.length}"
    :: transaction.orderedGroups.map fun (kind, components) =>
      let ordinal := Text.padLeft 2 (toString kind.ordinal)
      let name := Text.padRight 12 kind.name
      s!"  {ordinal} {name} {components.length} components"

/-- The line of the signature at a position. -/
def signatureLine (position : Nat) (signature : TransactionSignature) : String :=
  let size := signature.signer.x509.length
  let platform := signature.metadata.platformVersion
  let scheme := signature.metadata.schemeNumber
  s!"  [{position}] key {size} bytes, platform {platform}, scheme {scheme}"

/-- The lines of a signed transaction's signatures. -/
def signatureLines (signatures : List TransactionSignature) : List String :=
  s!"signatures: {signatures.length}"
    :: signatures.zipIdx.map fun (signature, position) => signatureLine position signature

/-- The line of a composite that was not decoded. -/
def captureLine (capture : Capture) : String :=
  s!"unregistered type {capture.descriptor.text} ({capture.bytes.length} bytes captured)"

/-- The lines of a report, or the error in the body of a signed transaction. -/
def lines (registry : Registry) (root : Value) : Except DecodeError (List String) :=
  let heading := s!"root: {root.typeName}"
  match root with
  | .known (.signedTransaction signed) =>
      match (signed.wireTransaction registry).result with
      | .ok transaction =>
          .ok (heading :: (signatureLines signed.signatures ++ groupLines transaction))
      | .error e => .error e
  | .known (.wireTransaction transaction) => .ok (heading :: groupLines transaction)
  | .captured capture => .ok [heading, captureLine capture]
  | _ => .ok [heading]

end AmqpEnvelope.Report
