import AmqpEnvelope.Decode.Dispatch

/-!
# Deferred decoding

A nested stream is decoded when its value is asked for.  The first success is kept, and from
then on it answers every request without any decoding.  A failure is not kept, so a later
request may succeed under a registry that knows more.
-/

namespace AmqpEnvelope

/-- What became of a request for the value of a deferred stream. -/
structure Materialization (α : Type) where
  /-- The stream after the request. -/
  stream : Deferred α
  /-- The value, or why there is none. -/
  result : Except DecodeError α
  /-- The types whose fields the request began to read, latest first. -/
  entered : List String

namespace Deferred

variable {α : Type}

/-- Ask a deferred stream for its value.  It is decoded as a complete stream unless a value
is present. -/
def materialize (reader : Registry → Decoding α) (registry : Registry) (stream : Deferred α) :
    Materialization α :=
  match stream.cached with
  | some value => ⟨stream, .ok value, []⟩
  | none =>
      match registry.readStream (reader registry) stream.bytes with
      | .ok value after => ⟨{ stream with cached := some value }, .ok value, after.entered⟩
      | .error e after => ⟨stream, .error e, after.entered⟩

end Deferred

/-- Read a wire transaction. -/
def Decode.wireTransaction (registry : Registry) : Decoding WireTransaction :=
  Decode.composite registry .wireTransaction (Decode.wireTransactionFields registry)

namespace SignedTransaction

/-- The keys of the signatures, in order. -/
def signers (signed : SignedTransaction) : List PublicKey :=
  signed.signatures.map TransactionSignature.signer

/-- Ask for the transaction that was signed. -/
def wireTransaction (registry : Registry) (signed : SignedTransaction) :
    Materialization WireTransaction :=
  signed.body.materialize Decode.wireTransaction registry

end SignedTransaction

end AmqpEnvelope
