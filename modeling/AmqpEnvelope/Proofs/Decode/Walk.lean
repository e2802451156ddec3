import AmqpEnvelope.Decode.Dispatch
import AmqpEnvelope.Proofs.Cursor.Walk

/-!
# Decoding walks

Typed readers, slots, dispatch and the steps of scripts make nothing but moves, since
they are put together from readers that do.  Nothing is assumed of the registry: a
script may do to the cursor whatever a caller could do, and that is moves again.

The recursion of dispatch is taken along `Cursor.potential`, as in its definition.  A
request that the definition refuses leaves the cursor where it is.
-/

namespace AmqpEnvelope

namespace Decode

open Cursor

variable {α : Type} {registry : Registry} {resolver : Resolver}

/-! ## Typed readers -/

theorem walks_slot (hresolver : ∀ d, Walks (resolver d)) : Walks (slot resolver) := by
  refine (Walks.asks _).bind fun null => ?_
  cases null with
  | true => exact (walks_read .null).bind fun _ => .pure _
  | false =>
      refine walks_peekDescriptor.bind fun found => ?_
      cases found with
      | some d => exact hresolver d
      | none => exact Walks.get.bind fun _ => .throw _

theorem walks_begun {k : Kind} {fields : Decoding α} (hfields : Walks fields) :
    Walks (begun k fields) :=
  (walks_enterType _).bind fun _ => hfields

theorem walks_composite {k : Kind} {fields : Decoding α} (hfields : Walks fields) :
    Walks (composite registry k fields) := by
  refine (Walks.asks _).bind fun offset => walks_enterComposite.bind fun d => ?_
  by_cases haccepts : registry.accepts k d
  · simp only [haccepts, if_true]
    exact (walks_begun hfields).bind fun _ => walks_exitComposite.bind fun _ => .pure _
  · simp only [haccepts]
    exact .throw _

theorem walks_publicKeyBody : Walks publicKeyBody :=
  (walks_expectSymbol _).bind fun _ => (walks_read .binary).bind fun _ =>
    (walks_pop .described).bind fun _ => .pure _

theorem walks_byteSequenceFields : Walks byteSequenceFields :=
  (walks_read .binary).bind fun _ => .pure _

theorem walks_serializedBytesFields : Walks serializedBytesFields :=
  (walks_read .binary).bind fun _ => .pure _

theorem walks_privacySaltFields : Walks privacySaltFields := by
  refine (Walks.asks _).bind fun offset => (walks_read .binary).bind fun bytes => ?_
  split
  · exact .pure _
  · exact .throw _

theorem walks_signatureMetadataFields : Walks signatureMetadataFields :=
  (walks_read .int).bind fun _ => (walks_read .int).bind fun _ => .pure _

theorem walks_transactionSignatureFields (hresolver : ∀ d, Walks (resolver d)) :
    Walks (transactionSignatureFields registry resolver) :=
  (walks_read .binary).bind fun _ => (walks_begun walks_publicKeyBody).bind fun _ =>
    (walks_nullable (walks_slot hresolver)).bind fun _ =>
      (walks_composite walks_signatureMetadataFields).bind fun _ => .pure _

theorem walks_componentGroupFields : Walks (componentGroupFields registry) :=
  (walks_listOf (walks_composite walks_byteSequenceFields)).bind fun _ =>
    (walks_read .int).bind fun _ => .pure _

theorem walks_wireTransactionFields : Walks (wireTransactionFields registry) := by
  refine (Walks.asks _).bind fun offset =>
    (walks_listOf (walks_composite walks_componentGroupFields)).bind fun groups =>
      (walks_composite walks_privacySaltFields).bind fun salt => ?_
  cases WireTransaction.ofGroups groups salt with
  | ok transaction => exact .pure _
  | error fault => exact .throw _

theorem walks_signedTransactionFields (hresolver : ∀ d, Walks (resolver d)) :
    Walks (signedTransactionFields registry resolver) :=
  (walks_listOf (walks_composite (walks_transactionSignatureFields hresolver))).bind fun _ =>
    (walks_composite walks_serializedBytesFields).bind fun _ => .pure _

theorem walks_recordFields (hresolver : ∀ d, Walks (resolver d)) (types : List FieldType) :
    Walks (recordFields resolver types) := by
  induction types with
  | nil => exact .pure _
  | cons type rest ih =>
      have hfield : Walks (field resolver type.shape) := by
        cases type.shape with
        | scalar p => exact (walks_readScalar p).bind fun _ => .pure _
        | slot => exact (walks_slot hresolver).bind fun _ => .pure _
      exact hfield.bind fun _ => ih.bind fun _ => .pure _

theorem walks_fields (hresolver : ∀ d, Walks (resolver d)) (k : Kind) :
    Walks (fields registry resolver k) := by
  cases k with
  | instant =>
      exact Walks.map ((walks_read .long).bind fun _ => (walks_read .int).bind fun _ => .pure _)
  | localDate =>
      exact Walks.map ((walks_read .uint).bind fun _ => (walks_read .ubyte).bind fun _ =>
        (walks_read .ubyte).bind fun _ => .pure _)
  | duration =>
      exact Walks.map ((walks_read .ulong).bind fun _ => (walks_read .uint).bind fun _ => .pure _)
  | currency => exact Walks.map ((walks_read .string).bind fun _ => .pure _)
  | className => exact Walks.map ((walks_read .string).bind fun _ => .pure _)
  | throwable => exact (Walks.asks _).bind fun _ => .throw _
  | publicKey => exact walks_publicKeyBody.map
  | byteSequence => exact walks_byteSequenceFields.map
  | serializedBytes => exact walks_serializedBytesFields.map
  | privacySalt => exact walks_privacySaltFields.map
  | componentGroup => exact walks_componentGroupFields.map
  | wireTransaction => exact walks_wireTransactionFields.map
  | signatureMetadata => exact walks_signatureMetadataFields.map
  | transactionSignature => exact (walks_transactionSignatureFields hresolver).map
  | signedTransaction => exact (walks_signedTransactionFields hresolver).map
  | record type => exact (walks_recordFields hresolver type.fields).map

theorem walks_kind (hresolver : ∀ d, Walks (resolver d)) (k : Kind) :
    Walks (kind registry resolver k) := by
  unfold kind
  split
  · exact walks_begun (walks_fields hresolver k)
  · exact walks_composite (walks_fields hresolver k)

theorem walks_target (hresolver : ∀ d, Walks (resolver d)) (t : Target) :
    Walks (target registry resolver t) := by
  cases t with
  | slot => exact walks_slot hresolver
  | kind k => exact walks_kind hresolver k

/-! ## Scripts -/

theorem walks_checked (hresolver : ∀ d, Walks (resolver d)) (expected : Descriptor) :
    Walks (checked resolver expected) := by
  refine walks_peekDescriptor.bind fun found => ?_
  cases found with
  | none => exact (Walks.asks _).bind fun _ => .throw _
  | some d =>
      dsimp only
      split
      · exact hresolver expected
      · exact (Walks.asks _).bind fun _ => .throw _

theorem walks_step (hresolver : ∀ d, Walks (resolver d)) (s : Step) :
    Walks (step registry resolver s) := by
  cases s with
  | read p => exact (walks_readScalar p).map
  | beginDescribed => exact walks_beginDescribed.map
  | beginExpecting symbol => exact (walks_expectSymbol symbol).map
  | expectSymbol symbol => exact (walks_expectSymbol symbol).map
  | finishDescribed => exact (walks_pop .described).bind fun _ => .pure _
  | enterComposite => exact walks_enterComposite.map
  | exitComposite => exact walks_exitComposite.bind fun _ => .pure _
  | enterList => exact walks_enterList.map
  | exitList => exact (walks_pop .list).bind fun _ => .pure _
  | enterMap => exact walks_enterMap.map
  | exitMap => exact (walks_pop .map).bind fun _ => .pure _
  | skip => exact walks_skip.bind fun _ => .pure _
  | capture => exact walks_capture.map
  | peekByte => exact (Walks.asks _).map
  | peekFormat => exact (Walks.asks _).map
  | atNull => exact (Walks.asks _).map
  | atRootSlot => exact (Walks.asks _).map
  | peekDescriptor => exact walks_peekDescriptor.map
  | strip expected => exact (walks_strip expected).map
  | rawByte what => exact (walks_rawByte what).bind fun _ => .pure _
  | unreadBytes => exact (Walks.asks _).map
  | markRoot => exact walks_markRoot.bind fun _ => .pure _
  | limits => exact (Walks.asks _).map
  | readPreamble => exact (walks_readPreamble _).map
  | enterEnvelope => exact walks_enterEnvelope.map
  | exitEnvelope => exact walks_exitEnvelope.bind fun _ => .pure _
  | decode t => exact (walks_target hresolver t).map
  | decodeList t => exact (walks_listOf (walks_target hresolver t)).bind fun _ => .pure _
  | decodeNullable t => exact (walks_nullable (walks_target hresolver t)).map
  | decodeAs d => exact (walks_checked hresolver d).map

theorem walks_steps (hresolver : ∀ d, Walks (resolver d)) (all : List Step) :
    Walks (steps registry resolver all) := by
  induction all with
  | nil => exact .pure _
  | cons first rest ih =>
      exact (walks_step hresolver first).bind fun _ => ih.bind fun _ => .pure _

/-! ## Dispatch -/

theorem walks_constructorBody (hresolver : ∀ d, Walks (resolver d)) (k : Constructor) :
    Walks (constructorBody registry resolver k) := by
  cases k with
  | described kind => exact (walks_begun (walks_fields hresolver kind)).map
  | nestedStream => exact (walks_begun walks_serializedBytesFields).map
  | scripted script => exact (walks_steps hresolver script.steps).bind fun _ => .pure _

theorem walks_invoke (hresolver : ∀ d, Walks (resolver d)) (k : Constructor) :
    Walks (invoke registry resolver k) := by
  unfold invoke
  split
  · exact walks_enterComposite.bind fun _ => (walks_constructorBody hresolver k).bind fun _ =>
      walks_exitComposite.bind fun _ => .pure _
  · exact walks_constructorBody hresolver k

theorem walks_captureComposite (d : Descriptor) : Walks (captureComposite d) :=
  (Walks.asks _).bind fun _ => (Walks.probe _).bind fun _ => walks_capture.bind fun _ => .pure _

theorem walks_dispatchWith (hresolver : ∀ d, Walks (resolver d)) (d : Descriptor) :
    Walks (dispatchWith registry resolver d) := by
  unfold dispatchWith
  split
  · exact walks_invoke hresolver _
  · refine Walks.get.bind fun c => ?_
    split
    · exact .throw _
    · exact walks_captureComposite d

/-- Dispatch walks, by induction on what is left to happen at the cursor. -/
theorem walks_dispatch (registry : Registry) (d : Descriptor) : Walks (dispatch registry d) := by
  intro c
  induction hpotential : c.potential using Nat.strongRecOn generalizing c d with
  | ind n ih =>
      have hguarded : ∀ inner, Walks fun c' =>
          if c'.potential < c.potential then dispatch registry inner c'
          else .error (.mismatch .selfReference c'.position) c' := by
        intro inner c'
        by_cases hless : c'.potential < c.potential
        · have hinner := ih c'.potential (hpotential ▸ hless) inner c' rfl
          simp only [after, hless, if_true] at hinner ⊢
          exact hinner
        · simp only [after, hless, if_false]
          exact .refl
      have hwalks : Walks (dispatchWith registry _ d) := walks_dispatchWith hguarded d
      have hwith := hwalks c
      unfold after at hwith ⊢
      rw [dispatch]
      exact hwith

end Decode

namespace Registry

open Cursor

/-- Every step at a cursor makes moves only, under every registry. -/
theorem walks_runStep (registry : Registry) (s : Step) : Walks (registry.runStep s) :=
  Decode.walks_step (Decode.walks_dispatch registry) s

theorem walks_decodeTarget (registry : Registry) (t : Target) :
    Walks (registry.decodeTarget t) :=
  Decode.walks_target (Decode.walks_dispatch registry) t

end Registry

end AmqpEnvelope
