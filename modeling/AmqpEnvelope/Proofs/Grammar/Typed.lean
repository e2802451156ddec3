import AmqpEnvelope.Proofs.Grammar.Combinator

/-!
# Grammars of described types

The grammar of every described type, field by field.  What a slot may hold is a parameter
here, as the resolver is for the readers; `Grammar.Slot` closes the recursion.

Values of every type span (`Spans.kind`).  Most types are composites, whose lists give
their size, so nothing has to be known of their fields for that; a public key is a
described scalar.
-/

namespace AmqpEnvelope

open Cursor

namespace Grammar

variable {α : Type}

/-- A composite as a value of a type, which has to accept its descriptor. -/
def typed (registry : Registry) (k : Kind) (fields : Grammar α) : Grammar α :=
  composite fun d => if registry.accepts k d then fields else fail

/-! ## Times, names and bytes -/

def instant : Grammar Instant := do
  let epochSeconds ← scalar .long
  let nanos ← scalar .int
  return ⟨epochSeconds, nanos⟩

def localDate : Grammar LocalDate := do
  let year ← scalar .uint
  let month ← scalar .ubyte
  let day ← scalar .ubyte
  return ⟨year, month, day⟩

def duration : Grammar Duration := do
  let seconds ← scalar .ulong
  let nanos ← scalar .uint
  return ⟨seconds, nanos⟩

def currency : Grammar Currency := Currency.mk <$> scalar .string

def className : Grammar ClassName := ClassName.mk <$> scalar .string

def byteSequence : Grammar ByteSequence := ByteSequence.mk <$> scalar .binary

def serializedBytes : Grammar SerializedBytes := SerializedBytes.mk <$> scalar .binary

/-- A salt is as long as it has to be. -/
def privacySalt : Grammar PrivacySalt := do
  let bytes ← scalar .binary
  if bytes.length = PrivacySalt.size then return ⟨bytes⟩ else fail

/-! ## Keys and signatures -/

/-- A public key is a described binary under one symbol, spelt with its namespace. -/
def publicKey : Grammar PublicKey := PublicKey.mk <$> described fun raw =>
  if raw = .symbol Decode.publicKeySymbol then scalar .binary else fail

def signatureMetadata : Grammar SignatureMetadata := do
  let platformVersion ← scalar .int
  let schemeNumber ← scalar .int
  return ⟨platformVersion, schemeNumber⟩

def transactionSignature (registry : Registry) (slots : Grammar Value) :
    Grammar TransactionSignature := do
  let bytes ← scalar .binary
  let signer ← publicKey
  let partialTree ← nullable slots
  let metadata ← typed registry .signatureMetadata signatureMetadata
  return ⟨bytes, signer, partialTree, metadata⟩

/-! ## Transactions -/

def componentGroup (registry : Registry) : Grammar ComponentGroup := do
  let components ← listOf (typed registry .byteSequence byteSequence)
  let index ← scalar .int
  return ⟨index, components⟩

/-- The groups of a wire transaction are in order. -/
def wireTransaction (registry : Registry) : Grammar WireTransaction := do
  let groups ← listOf (typed registry .componentGroup (componentGroup registry))
  let salt ← typed registry .privacySalt privacySalt
  match WireTransaction.ofGroups groups salt with
  | .ok transaction => return transaction
  | .error _ => fail

def signedTransaction (registry : Registry) (slots : Grammar Value) :
    Grammar SignedTransaction := do
  let signatures ← listOf
    (typed registry .transactionSignature (transactionSignature registry slots))
  let body ← typed registry .serializedBytes serializedBytes
  return ⟨signatures, .ofBytes body.bytes⟩

/-! ## Records -/

def field (slots : Grammar Value) : FieldShape → Grammar Field
  | .scalar p => .scalar <$> (Scalar.mk p <$> scalar p)
  | .slot => .slot <$> slots

def recordFields (slots : Grammar Value) : List FieldType → Grammar (List Field)
  | [] => pure []
  | type :: rest => do
      let first ← field slots type.shape
      let others ← recordFields slots rest
      return first :: others

/-! ## Every type -/

/-- What belongs to a type: the fields of its composite, or its whole value if it is
self-describing. -/
def fields (registry : Registry) (slots : Grammar Value) : Kind → Grammar Known
  | .instant => .instant <$> instant
  | .localDate => .localDate <$> localDate
  | .duration => .duration <$> duration
  | .currency => .currency <$> currency
  | .className => .className <$> className
  | .throwable => fail
  | .publicKey => .publicKey <$> publicKey
  | .byteSequence => .byteSequence <$> byteSequence
  | .serializedBytes => .serializedBytes <$> serializedBytes
  | .privacySalt => .privacySalt <$> privacySalt
  | .componentGroup => .componentGroup <$> componentGroup registry
  | .wireTransaction => .wireTransaction <$> wireTransaction registry
  | .signatureMetadata => .signatureMetadata <$> signatureMetadata
  | .transactionSignature => .transactionSignature <$> transactionSignature registry slots
  | .signedTransaction => .signedTransaction <$> signedTransaction registry slots
  | .record type => .record type <$> recordFields slots type.fields

/-- A value of a described type. -/
def kind (registry : Registry) (slots : Grammar Value) (k : Kind) : Grammar Known :=
  match k.entry with
  | .selfDescribing => fields registry slots k
  | .dispatched => typed registry k (fields registry slots k)

end Grammar

/-! ## Extents -/

namespace Spans

theorem typed {α : Type} (registry : Registry) (k : Kind) (fields : Grammar α) :
    Spans (Grammar.typed registry k fields) :=
  composite _

theorem publicKey : Spans Grammar.publicKey := by
  refine Spans.map _ (Spans.described fun raw => ?_)
  split
  · exact Spans.scalar .binary
  · exact Spans.fail

/-- A type that is self-describing is a public key or refused. -/
theorem selfDescribing (registry : Registry) (slots : Grammar Value) {k : Kind}
    (hk : k.entry = .selfDescribing) : Spans (Grammar.fields registry slots k) := by
  cases k with
  | publicKey => exact Spans.map _ Spans.publicKey
  | throwable => exact Spans.fail
  | _ => cases hk

theorem kind (registry : Registry) (slots : Grammar Value) (k : Kind) :
    Spans (Grammar.kind registry slots k) := by
  unfold Grammar.kind
  split
  next hk => exact selfDescribing registry slots hk
  next => exact typed registry k _

end Spans

/-! ## Readers of described types -/

section

variable {α : Type} {registry : Registry} {resolver : Resolver} {slots : Grammar Value}
  {outer c : Cursor}

/-- A composite is refused inside of it, behind its descriptor, so the refusal may as well
be read as one of its fields. -/
theorem readsAt_typed (hc : c.Coherent) (k : Kind) {fields : Decoding α} {g : Grammar α}
    (hfields : ReadsInside c fields g) :
    ReadsAt c (Decode.composite registry k fields) (Grammar.typed registry k g) := by
  have hbracket : ∀ offset, (do
      let d ← enterComposite
      if registry.accepts k d then
        let value ← Decode.begun k fields
        exitComposite
        return value
      else throw (DecodeError.unexpectedDescriptor k.descriptorText d.text offset)) =
    (do
      let d ← enterComposite
      let value ← (if registry.accepts k d then Decode.begun k fields
        else throw (DecodeError.unexpectedDescriptor k.descriptorText d.text offset))
      exitComposite
      return value) := by
    intro offset
    congr 1
    funext d
    split <;> rfl
  refine .asks ?_
  rw [hbracket]
  refine readsAt_composite hc fun d => ?_
  split
  · exact hfields.begun
  · exact .throw _

theorem readsInside_typed (k : Kind) {fields : Decoding α} {g : Grammar α}
    (hfields : ReadsInside outer fields g) :
    ReadsInside outer (Decode.composite registry k fields) (Grammar.typed registry k g) :=
  fun _ hc => readsAt_typed hc.coherent k (hfields.descend hc)

theorem readsInside_listOf {reader : Decoding α} {g : Grammar α}
    (hreader : ReadsInside outer reader g) :
    ReadsInside outer (Cursor.listOf reader) (Grammar.listOf g) :=
  fun _ hc => readsAt_listOf hc.coherent (hreader.descend hc)

theorem readsInside_nullable {reader : Decoding α} {g : Grammar α} (hg : Spans g)
    (hreader : ReadsInside outer reader g) :
    ReadsInside outer (Cursor.nullable reader) (Grammar.nullable g) :=
  fun _ hc => readsAt_nullable hc.coherent hg (hreader hc)

theorem readsInside_byteSequenceFields :
    ReadsInside outer Decode.byteSequenceFields Grammar.byteSequence :=
  (ReadsInside.read .binary).map ByteSequence.mk

theorem readsInside_serializedBytesFields :
    ReadsInside outer Decode.serializedBytesFields Grammar.serializedBytes :=
  (ReadsInside.read .binary).map SerializedBytes.mk

theorem readsInside_privacySaltFields :
    ReadsInside outer Decode.privacySaltFields Grammar.privacySalt := by
  refine .asks fun offset => (ReadsInside.read .binary).bind fun bytes => ?_
  split
  · exact .pure _
  · exact .throw _

theorem readsAt_publicKeyBody (hc : c.Coherent) :
    ReadsAt c Decode.publicKeyBody Grammar.publicKey := by
  have hbracket : Decode.publicKeyBody = PublicKey.mk <$> (do
      let opening ← beginDescribed
      let x509 ← (if opening.raw = .symbol Decode.publicKeySymbol then read .binary
        else throw (DecodeError.unexpectedDescriptor
          (RawDescriptor.symbol Decode.publicKeySymbol).text opening.raw.text opening.offset))
      finishDescribed
      return x509) := by
    simp only [Decode.publicKeyBody, expectSymbol, bind_assoc, map_bind, map_pure]
    congr 1
    funext opening
    unfold Opening.requireSymbol
    by_cases hsymbol : opening.raw = .symbol Decode.publicKeySymbol
    · simp only [hsymbol, if_true, pure_bind]
    · simp only [hsymbol, if_false]
      rfl
  rw [hbracket]
  refine (readsAt_described hc fun opening => ?_).map PublicKey.mk
  split
  · exact .read .binary
  · exact .throw _

theorem readsInside_signatureMetadataFields :
    ReadsInside outer Decode.signatureMetadataFields Grammar.signatureMetadata :=
  (ReadsInside.read .int).bind fun _ => (ReadsInside.read .int).bind fun _ => .pure _

theorem readsInside_transactionSignatureFields (hslots : Spans slots)
    (hslot : ReadsInside outer (Decode.slot resolver) slots) :
    ReadsInside outer (Decode.transactionSignatureFields registry resolver)
      (Grammar.transactionSignature registry slots) := by
  refine (ReadsInside.read .binary).bind fun bytes => ?_
  refine (ReadsInside.begun (.of_coherent readsAt_publicKeyBody)).bind fun signer => ?_
  refine (readsInside_nullable hslots hslot).bind fun partialTree => ?_
  refine (readsInside_typed _ readsInside_signatureMetadataFields).bind fun metadata => ?_
  exact .pure _

theorem readsInside_componentGroupFields :
    ReadsInside outer (Decode.componentGroupFields registry) (Grammar.componentGroup registry) := by
  refine (readsInside_listOf (readsInside_typed _ readsInside_byteSequenceFields)).bind
    fun components => ?_
  exact (ReadsInside.read .int).bind fun index => .pure _

theorem readsInside_wireTransactionFields :
    ReadsInside outer (Decode.wireTransactionFields registry)
      (Grammar.wireTransaction registry) := by
  refine .asks fun offset => ?_
  refine (readsInside_listOf (readsInside_typed _ readsInside_componentGroupFields)).bind
    fun groups => ?_
  refine (readsInside_typed _ readsInside_privacySaltFields).bind fun salt => ?_
  cases WireTransaction.ofGroups groups salt with
  | ok transaction => exact .pure _
  | error fault => exact .throw _

theorem readsInside_signedTransactionFields (hslots : Spans slots)
    (hslot : ReadsInside outer (Decode.slot resolver) slots) :
    ReadsInside outer (Decode.signedTransactionFields registry resolver)
      (Grammar.signedTransaction registry slots) := by
  have hsignature : ReadsInside outer (Decode.transactionSignatureFields registry resolver)
      (Grammar.transactionSignature registry slots) :=
    readsInside_transactionSignatureFields hslots hslot
  refine (readsInside_listOf (readsInside_typed _ hsignature)).bind fun signatures => ?_
  exact (readsInside_typed _ readsInside_serializedBytesFields).bind fun body => .pure _

theorem readsInside_recordFields (hslot : ReadsInside outer (Decode.slot resolver) slots)
    (types : List FieldType) :
    ReadsInside outer (Decode.recordFields resolver types) (Grammar.recordFields slots types) := by
  induction types with
  | nil => exact .pure _
  | cons type rest ih =>
      have hfield : ReadsInside outer (Decode.field resolver type.shape)
          (Grammar.field slots type.shape) := by
        cases type.shape with
        | scalar p => exact ((ReadsInside.read p).map (Scalar.mk p)).map Field.scalar
        | slot => exact hslot.map Field.slot
      exact hfield.bind fun first => ih.bind fun others => .pure _

theorem readsInside_fields (hslots : Spans slots)
    (hslot : ReadsInside outer (Decode.slot resolver) slots) (k : Kind) :
    ReadsInside outer (Decode.fields registry resolver k) (Grammar.fields registry slots k) := by
  cases k with
  | instant =>
      exact ReadsInside.map _ <| (ReadsInside.read .long).bind fun _ =>
        (ReadsInside.read .int).bind fun _ => .pure _
  | localDate =>
      exact ReadsInside.map _ <| (ReadsInside.read .uint).bind fun _ =>
        (ReadsInside.read .ubyte).bind fun _ => (ReadsInside.read .ubyte).bind fun _ => .pure _
  | duration =>
      exact ReadsInside.map _ <| (ReadsInside.read .ulong).bind fun _ =>
        (ReadsInside.read .uint).bind fun _ => .pure _
  | currency => exact ((ReadsInside.read .string).map Currency.mk).map _
  | className => exact ((ReadsInside.read .string).map ClassName.mk).map _
  | throwable => exact .asks fun offset => .throw _
  | publicKey => exact (ReadsInside.of_coherent readsAt_publicKeyBody).map _
  | byteSequence => exact readsInside_byteSequenceFields.map _
  | serializedBytes => exact readsInside_serializedBytesFields.map _
  | privacySalt => exact readsInside_privacySaltFields.map _
  | componentGroup => exact readsInside_componentGroupFields.map _
  | wireTransaction => exact readsInside_wireTransactionFields.map _
  | signatureMetadata => exact readsInside_signatureMetadataFields.map _
  | transactionSignature => exact (readsInside_transactionSignatureFields hslots hslot).map _
  | signedTransaction => exact (readsInside_signedTransactionFields hslots hslot).map _
  | record type => exact (readsInside_recordFields hslot type.fields).map _

/-- What a self-describing type reads contains no slot. -/
theorem readsAt_selfDescribing (hc : c.Coherent) {k : Kind} (hk : k.entry = .selfDescribing) :
    ReadsAt c (Decode.fields registry resolver k) (Grammar.fields registry slots k) := by
  cases k with
  | publicKey => exact (readsAt_publicKeyBody hc).map _
  | throwable => exact .asks (.throw _)
  | _ => cases hk

/-- Values of a described type are read by their grammar, if the slots in them are. -/
theorem readsAt_kind (hc : c.Coherent) (hslots : Spans slots)
    (hslot : ReadsInside c (Decode.slot resolver) slots) (k : Kind) :
    ReadsAt c (Decode.kind registry resolver k) (Grammar.kind registry slots k) := by
  unfold Decode.kind Grammar.kind
  cases hk : k.entry with
  | selfDescribing => exact .begun (readsAt_selfDescribing ((Move.begin _).coherent hc) hk)
  | dispatched => exact readsAt_typed hc k (readsInside_fields hslots hslot k)

end

end AmqpEnvelope
