import AmqpEnvelope.Decode.Deferred
import AmqpEnvelope.Proofs.Written.Transaction

/-!
# Written signed transactions

A signed transaction is written as its signatures and, in a byte string, the stream of the
transaction that they sign.  Reading undoes writing: whatever signatures and groups were
written, and whatever was put around the outer stream and the inner one, they are found
again (`Registry.decodeAny_signedTransaction`).
-/

namespace AmqpEnvelope

open Cursor Written

/-! ## Rows of fields -/

namespace Grammar

theorem splits_serializedBytes : Splits serializedBytes fun _ items value =>
    ∃ content, items = [content] ∧ BinaryOf value.bytes content :=
  splits_wrapped SerializedBytes.mk SerializedBytes.bytes (fun _ => rfl) fun _ => rfl

theorem splits_signatureMetadata : Splits signatureMetadata fun _ items value =>
    ∃ version scheme, items = [version, scheme] ∧ IntOf value.platformVersion version ∧
      IntOf value.schemeNumber scheme := by
  refine (Splits.cons (Spans.scalar .int) fun version => Splits.cons (Spans.scalar .int)
    fun scheme => Splits.pure (SignatureMetadata.mk version scheme)).of_iff
      fun bounds items value => ⟨?_, ?_⟩
  · rintro ⟨version, _, _, rfl, hversion, scheme, _, _, rfl, hscheme, rfl, rfl⟩
    exact ⟨version, scheme, rfl, (int_iff.mp hversion).2, (int_iff.mp hscheme).2⟩
  · rintro ⟨version, scheme, rfl, hversion, hscheme⟩
    exact ⟨version, _, _, rfl, int_iff.mpr ⟨rfl, hversion⟩, scheme, [], _, rfl,
      int_iff.mpr ⟨rfl, hscheme⟩, rfl, rfl⟩

theorem splits_transactionSignature (registry : Registry) {slots : Grammar Value}
    (hslots : Spans slots) :
    Splits (transactionSignature registry slots) fun bounds items value =>
      ∃ bytes key tree metadata, items = [bytes, key, tree, metadata] ∧
        BinaryOf value.bytes bytes ∧ publicKey bounds 1 key value.signer ∧
          nullable slots bounds 1 tree value.partialTree ∧
            typed registry .signatureMetadata signatureMetadata bounds 1 metadata
              value.metadata := by
  refine (Splits.cons (Spans.scalar .binary) fun bytes => Splits.cons Spans.publicKey
    fun signer => Splits.cons hslots.nullable fun tree => Splits.cons (Spans.typed _ _ _)
      fun metadata => Splits.pure (TransactionSignature.mk bytes signer tree metadata)).of_iff
        fun bounds items value => ⟨?_, ?_⟩
  · rintro ⟨bytes, _, _, rfl, hbytes, key, _, _, rfl, hkey, tree, _, _, rfl, htree, metadata, _, _,
      rfl, hmetadata, rfl, rfl⟩
    exact ⟨bytes, key, tree, metadata, rfl, (binary_iff.mp hbytes).2, hkey, htree, hmetadata⟩
  · obtain ⟨_, _, _, _⟩ := value
    rintro ⟨bytes, key, tree, metadata, rfl, hbytes, hkey, htree, hmetadata⟩
    exact ⟨bytes, _, _, rfl, binary_iff.mpr ⟨rfl, hbytes⟩, key, _, _, rfl, hkey, tree, _, _, rfl,
      htree, metadata, [], _, rfl, hmetadata, rfl, rfl⟩

theorem splits_signedTransaction (registry : Registry) (slots : Grammar Value) :
    Splits (signedTransaction registry slots) fun bounds items value =>
      ∃ list body stream, items = [list, body] ∧
        listOf (typed registry .transactionSignature (transactionSignature registry slots)) bounds 1
          list value.signatures ∧
            typed registry .serializedBytes serializedBytes bounds 1 body ⟨stream⟩ ∧
              value.body = .ofBytes stream := by
  refine (Splits.cons (Spans.listed _) fun signatures => Splits.cons (Spans.typed _ _ _)
    fun body : SerializedBytes =>
      Splits.pure (SignedTransaction.mk signatures (.ofBytes body.bytes))).of_iff
      fun bounds items value => ⟨?_, ?_⟩
  · rintro ⟨list, _, _, rfl, hlist, body, _, stream, rfl, hbody, rfl, rfl⟩
    exact ⟨list, body, stream.bytes, rfl, hlist, hbody, rfl⟩
  · obtain ⟨signatures, _⟩ := value
    rintro ⟨list, body, stream, rfl, hlist, hbody, rfl⟩
    exact ⟨list, _, _, rfl, hlist, body, [], _, rfl, hbody, rfl, rfl⟩

end Grammar

/-! ## Writing signatures -/

namespace Writing

/-- A composite of a type that is not known, with fields that are written already. -/
structure Tree where
  symbol : String
  fields : List Bytes
deriving DecidableEq, Repr

def Tree.write (tree : Tree) : Bytes := composite tree.symbol tree.fields

/-- What is kept of a composite of an unknown type. -/
def Tree.capture (tree : Tree) : Capture :=
  .of (Descriptor.ofWireSymbol tree.symbol) tree.write (1 + (Writing.symbol tree.symbol).length)

/-- A signature to be written. -/
structure Signature where
  bytes : Bytes
  x509 : Bytes
  tree : Option Tree
  metadata : SignatureMetadata
deriving DecidableEq, Repr

def publicKey (x509 : Bytes) : Bytes :=
  described (symbol "net.corda:java.security.PublicKey") (binary x509)

def signatureMetadata (metadata : SignatureMetadata) : Bytes :=
  composite "net.corda:net.corda.core.crypto.SignatureMetadata"
    [int metadata.platformVersion, int metadata.schemeNumber]

def partialTree : Option Tree → Bytes
  | none => null
  | some tree => tree.write

def Signature.write (signature : Signature) : Bytes :=
  composite "net.corda:net.corda.core.crypto.TransactionSignature"
    [binary signature.bytes, publicKey signature.x509, partialTree signature.tree,
      signatureMetadata signature.metadata]

def serializedBytes (stream : Bytes) : Bytes :=
  composite "net.corda:net.corda.core.serialization.SerializedBytes" [binary stream]

/-- The two fields of a signed transaction. -/
def signedFields (signatures : List Signature) (stream : Bytes) : List Bytes :=
  [list (signatures.map Signature.write), serializedBytes stream]

def signedTransaction (signatures : List Signature) (stream : Bytes) : Bytes :=
  composite "net.corda:net.corda.core.transactions.SignedTransaction"
    (signedFields signatures stream)

/-- What was written is found: the same bytes, key and metadata, no tree where there was none,
and a tree of an unknown type as it was written. -/
structure Signature.Found (given : Signature) (found : TransactionSignature) : Prop where
  bytes_eq : found.bytes = given.bytes
  signer_eq : found.signer = ⟨given.x509⟩
  tree_none : given.tree = none → found.partialTree = none
  tree_some : ∀ tree, given.tree = some tree → ∃ capture,
    found.partialTree = some (.captured capture) ∧
      capture.descriptor = Descriptor.ofWireSymbol tree.symbol ∧ capture.bytes = tree.write ∧
        capture.body = list tree.fields
  metadata_eq : found.metadata = given.metadata

/-- The signature that is read. -/
def Signature.read (given : Signature) : TransactionSignature :=
  ⟨given.bytes, ⟨given.x509⟩, given.tree.map fun tree => .captured tree.capture, given.metadata⟩

/-- The body of what is kept is the list of the fields. -/
theorem Tree.capture_body (tree : Tree) : tree.capture.body = list tree.fields := by
  have hwrite : tree.write = (0x00 :: Writing.symbol tree.symbol) ++ list tree.fields := rfl
  have hoffset : 1 + (Writing.symbol tree.symbol).length =
      (0x00 :: Writing.symbol tree.symbol).length := Nat.add_comm _ _
  have hfits : (0x00 :: Writing.symbol tree.symbol).length ≤ tree.write.length := by
    rw [hwrite, List.length_append]
    exact Nat.le_add_right _ _
  show List.drop (min (1 + (Writing.symbol tree.symbol).length) tree.write.length) tree.write = _
  rw [hoffset, Nat.min_eq_left hfits, hwrite, List.drop_left]

theorem Signature.found_read (given : Signature) : given.Found given.read where
  bytes_eq := rfl
  signer_eq := rfl
  tree_none h := by rw [read, h]; rfl
  tree_some tree h := ⟨tree.capture, by rw [read, h]; rfl, rfl, rfl, tree.capture_body⟩
  metadata_eq := rfl

end Writing

/-! ## What is written is of the grammars -/

/-- In a slot a composite is dispatched by the descriptor in front of it. -/
theorem Grammar.slot_of_headed {registry : Registry} {levels : Nat} {root : Bool} {d : Descriptor}
    {bounds : Limits} {bs : Bytes} {value : Value} (hd : Headed d bs)
    (h : dispatched registry (slot registry levels false) root d bounds 1 bs value) :
    slot registry (levels + 1) root bounds 1 bs value := by
  have hhead : bs.head? ≠ some FormatCode.null.toByte := by
    obtain ⟨head, raw, body, rfl, -, -⟩ := hd
    rw [List.head?_cons]
    decide
  show nullOr _ _ bounds 1 bs value
  rw [nullOr, if_neg hhead]
  exact ⟨d, hd, h⟩

namespace Writing

variable {settings : Settings} {bounds : Limits} {outer : List Bytes}

theorem composite_headed {name : String} {fields : List Bytes}
    (hname : (Utf8.encode name).length < BigEndian.span 4) :
    Headed (Descriptor.ofWireSymbol name) (composite name fields) :=
  headed_iff.mpr ⟨.symbol name, _, ⟨symbol name, rfl, .symbol (symbol_form hname)⟩, rfl⟩

theorem serializedBytes_typed (houter : Fits outer) {stream : Bytes}
    (hmem : serializedBytes stream ∈ outer) (hroom : 2 ≤ bounds.maxDepth)
    (hcap : 1 ≤ bounds.maxCollectionLength) :
    Grammar.typed (.standard settings) .serializedBytes Grammar.serializedBytes bounds 1
      (serializedBytes stream) ⟨stream⟩ := by
  have hname : "net.corda:net.corda.core.serialization.SerializedBytes" ∈
      spelt "net.corda.core.serialization.SerializedBytes" := by
    decide
  obtain ⟨hbinary, hcomposite⟩ := binary_composite_form houter hmem hname hcap
  exact (Grammar.typed_written_iff Named.serializedBytes Grammar.splits_serializedBytes).mpr
    ⟨rfl, hroom, _, hcomposite, _, rfl, hbinary⟩

theorem signatureMetadata_typed (houter : Fits outer) {metadata : SignatureMetadata}
    (hmem : signatureMetadata metadata ∈ outer) (hroom : 2 ≤ bounds.maxDepth)
    (hcap : 2 ≤ bounds.maxCollectionLength) :
    Grammar.typed (.standard settings) .signatureMetadata Grammar.signatureMetadata bounds 1
      (signatureMetadata metadata) metadata := by
  refine (Grammar.typed_written_iff Named.signatureMetadata Grammar.splits_signatureMetadata).mpr
    ⟨rfl, hroom, _, composite_form (by decide) (houter.of_symbol hmem)
      (houter.of_composite hmem) ?_ hcap, _, _, rfl, int_form _, int_form _⟩
  rw [List.forall_mem_cons, List.forall_mem_singleton]
  exact ⟨int_ne_nil _, int_ne_nil _⟩

theorem publicKey_read (houter : Fits outer) {x509 : Bytes} (hmem : publicKey x509 ∈ outer)
    (hroom : 1 ≤ bounds.maxDepth) : Grammar.publicKey bounds 1 (publicKey x509) ⟨x509⟩ := by
  have hsymbol : DescriptorOf (.symbol Decode.publicKeySymbol) (symbol Decode.publicKeySymbol) :=
    .symbol (symbol_form (by decide +kernel))
  have hbinary : Grammar.scalar .binary bounds.inner 1 (binary x509) x509 :=
    Grammar.binary_iff.mpr ⟨rfl, binary_form (houter.of_described_binary hmem)⟩
  refine Grammar.map_iff.mpr ⟨x509, Grammar.described_written_iff.mpr
    ⟨rfl, hroom, _, binary x509, ⟨_, rfl, hsymbol⟩, ?_⟩, rfl⟩
  rw [if_pos rfl]
  exact hbinary

/-- A composite of an unknown type in a slot is kept as it was written. -/
theorem Tree.slot_capture (houter : Fits outer) {tree : Tree} (hmem : tree.write ∈ outer)
    (hunknown : (Registry.standard .standard).resolve (Descriptor.ofWireSymbol tree.symbol) = none)
    (hroom : 1 ≤ bounds.maxDepth) (levels : Nat) :
    Grammar.slot (.standard .standard) (levels + 1) false bounds 1 tree.write
      (.captured tree.capture) := by
  have hsymbol : DescriptorOf (.symbol tree.symbol) (Writing.symbol tree.symbol) :=
    .symbol (symbol_form (houter.of_symbol hmem))
  have hdescribed : Described (.symbol tree.symbol) (list tree.fields) tree.write :=
    ⟨_, rfl, hsymbol⟩
  -- What is in the list is passed over by its size, so only the descriptor takes room.
  have hextent : Extent bounds.maxDepth tree.write :=
    (hdescribed.extent (list_extent (houter.of_composite hmem) 0)).mono hroom
  have hcapture :
      (Registry.standard .standard).settings.unknownTypes.actionFor false = .capture := by
    rw [Registry.standard_settings]
    rfl
  refine Grammar.slot_of_headed (composite_headed (houter.of_symbol hmem)) ?_
  rw [Grammar.dispatched, hunknown, hcapture]
  exact ⟨rfl, hextent, _, _, _, rfl,
    fun _ => Grammar.descriptor_written_iff.mpr ⟨rfl, hsymbol⟩, rfl, rfl⟩

theorem partialTree_read (houter : Fits outer) {tree : Option Tree}
    (hmem : partialTree tree ∈ outer)
    (hunknown : ∀ t, tree = some t →
      (Registry.standard .standard).resolve (Descriptor.ofWireSymbol t.symbol) = none)
    (hroom : 1 ≤ bounds.maxDepth) (levels : Nat) :
    Grammar.nullable (Grammar.slot (.standard .standard) (levels + 1) false) bounds 1
      (partialTree tree) (tree.map fun t => .captured t.capture) := by
  cases tree with
  | none =>
      have hnull : Grammar.scalar .null bounds 1 null () :=
        Grammar.scalar_iff.mpr ⟨rfl, .null, [], [], 0, rfl, rfl, ⟨rfl, rfl⟩, rfl⟩
      rw [Grammar.nullable, Grammar.nullOr]
      exact ⟨hnull, rfl⟩
  | some t =>
      have hhead : (partialTree (some t)).head? ≠ some FormatCode.null.toByte := by
        show some (0x00 : UInt8) ≠ _
        decide
      rw [Grammar.nullable, Grammar.nullOr, if_neg hhead]
      exact Grammar.map_iff.mpr
        ⟨_, Tree.slot_capture houter hmem (hunknown t rfl) hroom levels, rfl⟩

/-- A tree of the signature is of a type that the standard registry does not know. -/
def Signature.Unknown (signature : Signature) : Prop :=
  ∀ tree, signature.tree = some tree →
    (Registry.standard .standard).resolve (Descriptor.ofWireSymbol tree.symbol) = none

theorem Signature.typed_read (houter : Fits outer) {signature : Signature}
    (hmem : signature.write ∈ outer) (hunknown : signature.Unknown) (hroom : 4 ≤ bounds.maxDepth)
    (hcap : 4 ≤ bounds.maxCollectionLength) (levels : Nat) :
    Grammar.typed (.standard .standard) .transactionSignature
      (Grammar.transactionSignature (.standard .standard)
        (Grammar.slot (.standard .standard) (levels + 1) false)) bounds 1 signature.write
          signature.read := by
  have hfields : Fits [binary signature.bytes, publicKey signature.x509,
      partialTree signature.tree, signatureMetadata signature.metadata] :=
    houter.of_composite hmem
  obtain ⟨hkey, htwo⟩ : 1 ≤ bounds.inner.inner.maxDepth ∧ 2 ≤ bounds.inner.inner.maxDepth := by
    simp only [Limits.inner]
    omega
  have hcap' : 2 ≤ bounds.inner.inner.maxCollectionLength := Nat.le_trans (by decide) hcap
  have hbytes : BinaryOf signature.bytes (binary signature.bytes) :=
    binary_form (hfields.of_binary List.mem_cons_self)
  refine (Grammar.typed_written_iff Named.transactionSignature
    (Grammar.splits_transactionSignature _ (Spans.slot _ _ _))).mpr
      ⟨rfl, by omega, _, composite_form (by decide) (houter.of_symbol hmem) hfields ?_ hcap,
        _, _, _, _, rfl, hbytes, publicKey_read hfields (by simp) hkey,
        partialTree_read hfields (by simp) hunknown hkey levels,
        signatureMetadata_typed hfields (by simp) htwo hcap'⟩
  have htree : partialTree signature.tree ≠ [] := by
    cases signature.tree with
    | none => exact List.cons_ne_nil _ _
    | some tree => exact composite_ne_nil _ _
  simp only [List.forall_mem_cons]
  exact ⟨binary_ne_nil _, List.cons_ne_nil _ _, htree, composite_ne_nil _ _, List.forall_mem_nil _⟩

/-- What was written of a signed transaction is read in a slot. -/
theorem signedTransaction_read (bounds : Limits) {signatures : List Signature} {stream : Bytes}
    (hfields : Fits (signedFields signatures stream))
    (hunknown : ∀ signature ∈ signatures, signature.Unknown)
    (hlength : signatures.length ≤ bounds.maxCollectionLength) (hroom : 7 ≤ bounds.maxDepth)
    (hcap : 4 ≤ bounds.maxCollectionLength) (levels : Nat) (root : Bool) :
    Grammar.slot (.standard .standard) (levels + 2) root bounds 1
      (signedTransaction signatures stream)
      (.known (.signedTransaction ⟨signatures.map Signature.read, .ofBytes stream⟩)) := by
  -- Two levels for the transaction, one for the list of signatures, two for a signature and
  -- two for what stands in it.
  obtain ⟨hopen, htwo, hinner⟩ : 0 < bounds.inner.inner.maxDepth ∧
      2 ≤ bounds.inner.inner.maxDepth ∧ 4 ≤ bounds.inner.inner.inner.maxDepth := by
    simp only [Limits.inner]
    omega
  have hsignatures : Fits (signatures.map Signature.write) := hfields.of_list List.mem_cons_self
  have hlist : Grammar.listOf (Grammar.typed (.standard .standard) .transactionSignature
      (Grammar.transactionSignature (.standard .standard)
        (Grammar.slot (.standard .standard) (levels + 1) false))) bounds.inner.inner 1
          (list (signatures.map Signature.write)) (signatures.map Signature.read) := by
    refine (Grammar.listOf_written_iff (Spans.typed _ _ _)).mpr ⟨rfl, hopen,
      signatures.map Signature.write, list_form hsignatures ?_ (by rwa [List.length_map]), ?_⟩
    · intro item hitem
      obtain ⟨signature, -, rfl⟩ := List.mem_map.mp hitem
      exact composite_ne_nil _ _
    · rw [List.forall₂_map_left_iff, List.forall₂_map_right_iff, List.forall₂_same]
      exact fun signature hsignature => signature.typed_read hsignatures
        (List.mem_map_of_mem hsignature) (hunknown signature hsignature) hinner hcap levels
  have hbody : Grammar.typed (.standard .standard) .serializedBytes Grammar.serializedBytes
      bounds.inner.inner 1 (serializedBytes stream) ⟨stream⟩ :=
    serializedBytes_typed hfields (List.mem_cons_of_mem _ List.mem_cons_self) htwo
      (Nat.le_trans (by decide) hcap)
  have hname : (Utf8.encode "net.corda:net.corda.core.transactions.SignedTransaction").length <
      BigEndian.span 4 := by
    decide +kernel
  have hfieldsForm : ListOf bounds.maxCollectionLength (signedFields signatures stream)
      (list (signedFields signatures stream)) := by
    have htwo : (signedFields signatures stream).length ≤ 4 := by
      show 2 ≤ 4
      decide
    refine list_form hfields ?_ (Nat.le_trans htwo hcap)
    rw [signedFields, List.forall_mem_cons, List.forall_mem_singleton]
    exact ⟨list_ne_nil _, composite_ne_nil _ _⟩
  have hresolve : (Registry.standard .standard).resolve
      (Descriptor.ofWireSymbol "net.corda:net.corda.core.transactions.SignedTransaction") =
        some (.described .signedTransaction) := by
    have hspelt :
        Descriptor.ofWireSymbol "net.corda:net.corda.core.transactions.SignedTransaction" =
          Kind.signedTransaction.descriptor := by
      decide +kernel
    rw [hspelt, Registry.standard_resolve_iff]
    exact List.mem_append_left _ (List.mem_map.mpr ⟨.signedTransaction, by decide, rfl⟩)
  refine Grammar.slot_of_headed (composite_headed hname) ?_
  rw [Grammar.dispatched, hresolve]
  show Grammar.composite (fun _ => Value.known <$> (Known.signedTransaction <$>
    Grammar.signedTransaction _ _)) bounds 1 _ _
  rw [Grammar.composite_map, Grammar.composite_map, Grammar.map_iff]
  refine ⟨_, Grammar.map_iff.mpr ⟨_, (Grammar.composite_written_iff fun _ =>
    Grammar.splits_signedTransaction _ _).mpr ?_, rfl⟩, rfl⟩
  exact ⟨rfl, by omega, .symbol _, _, _, ⟨_, rfl, .symbol (symbol_form hname)⟩, hfieldsForm, _, _,
    stream, rfl, hlist, hbody, rfl⟩

/-- A name in front is not the descriptor of an envelope. -/
theorem composite_plain {name : String} {fields : List Bytes}
    (hname : (Utf8.encode name).length < BigEndian.span 4) :
    ¬ Headed envelopeDescriptor (composite name fields) := fun henvelope =>
  Descriptor.ofWireSymbol_ne_code name _
    ((before_start _ ⟨0, 0⟩).headed_unique (composite_headed hname) henvelope)

end Writing

/-! ## Streams of signed transactions -/

namespace Writing

/-- The values in the outermost list of a stream.  Whatever else is written stands in them. -/
def outermost (wrapping : Wrapping) (signatures : List Signature) (stream : Bytes) : List Bytes :=
  if wrapping.envelope then parts (signedTransaction signatures stream)
  else signedFields signatures stream

variable {wrapping : Wrapping} {signatures : List Signature} {stream : Bytes}

theorem fits_parts (h : Fits (outermost wrapping signatures stream))
    (henvelope : wrapping.envelope = true) :
    Fits (parts (signedTransaction signatures stream)) := by
  rwa [outermost, if_pos henvelope] at h

theorem fits_signedFields (h : Fits (outermost wrapping signatures stream)) :
    Fits (signedFields signatures stream) := by
  unfold outermost at h
  split at h
  · exact h.of_composite List.mem_cons_self
  · exact h

/-- What stands in the inner stream fits too. -/
theorem fits_of_stream {fields : List Bytes} (h : Fits (signedFields signatures stream))
    (hle : fields.flatten.length ≤ stream.length) : Fits fields := by
  have hbody : Fits [binary stream] :=
    h.of_composite (List.mem_cons_of_mem _ List.mem_cons_self)
  have hitem : (binary stream).length ≤ [binary stream].flatten.length :=
    Fits.length_le_of_mem List.mem_cons_self
  have hcontent : stream.length ≤ (binary stream).length := Fits.length_content_le _ _ _
  exact hbody.of_length_le (Nat.le_trans hle (Nat.le_trans hcontent hitem))

end Writing

/-- A stream that can be read is there when it is asked for. -/
theorem Deferred.materialize_ofBytes {α : Type} {reader : Registry → Decoding α}
    {registry : Registry} {stream : Bytes} {value : α}
    (h : ∃ c, registry.readStream (reader registry) stream = .ok value c) :
    ((Deferred.ofBytes stream).materialize reader registry).result = .ok value := by
  obtain ⟨c, hread⟩ := h
  have hbytes : registry.readStream (reader registry) (Deferred.ofBytes stream : Deferred α).bytes =
      .ok value c := hread
  have hempty : (Deferred.ofBytes stream : Deferred α).cached = none := rfl
  rw [materialize, hempty]
  dsimp only
  rw [hbytes]

namespace Registry

/-- Whatever is put around a signed transaction, it is read with the signatures that were
written.  The stream in it is not looked at. -/
theorem decodeAny_signedFields {wrapping : Writing.Wrapping} {given : List Writing.Signature}
    {stream : Bytes} (hfits : Fits (Writing.outermost wrapping given stream))
    (hunknown : ∀ signature ∈ given, signature.Unknown)
    (hlength : given.length ≤ Limits.standard.maxCollectionLength) :
    (standard .standard).decodeAny (wrapping.write (Writing.signedTransaction given stream)) =
      .ok (.known (.signedTransaction
        ⟨given.map Writing.Signature.read, .ofBytes stream⟩)) := by
  have hsettings := standard_settings .standard
  have hfields := Writing.fits_signedFields hfits
  refine exists_readStream_iff.mp ?_
  unfold readStream
  rw [hsettings]
  refine Writing.Wrapping.exists_rootValue (Spans.target (standard .standard) (127 + 2) true .slot)
    (Shows.target _ _ _ _) rfl rfl (by decide) (by decide)
    (fun depth hdepth => readsRoot_target (standard_declared _) (Nat.lt_succ_of_le hdepth) .slot)
    (fun depth hdepth => ?_) (Writing.composite_plain (by decide +kernel)) wrapping
    (Writing.fits_parts hfits)
  have hroom : 7 ≤ depth := Nat.le_trans (by decide) hdepth
  have hcap : 4 ≤ Limits.standard.maxCollectionLength := by decide
  exact Writing.signedTransaction_read ⟨depth, _⟩ hfields hunknown hlength hroom hcap 127 true

/-- Whatever is put around a wire transaction, the groups and the salt that were written are
read. -/
theorem exists_readStream_wireTransaction {wrapping : Writing.Wrapping}
    {groups : List ComponentGroup} {salt : PrivacySalt} (horder : InOrder groups)
    (hcomponents : ∀ group ∈ groups, group.components.length ≤ Limits.standard.maxCollectionLength)
    (hsalt : salt.bytes.length = 32)
    (hfields : Fits [Writing.list (groups.map Writing.componentGroup), Writing.privacySalt salt])
    (hfits : wrapping.envelope = true →
      Fits (Writing.parts (Writing.wireTransaction groups salt))) :
    ∃ c, (standard .standard).readStream (Decode.wireTransaction (standard .standard))
      (wrapping.write (Writing.wireTransaction groups salt)) =
        .ok ⟨groups, salt, orderFault?_eq_none_iff.mpr horder⟩ c := by
  have hsettings := standard_settings .standard
  have hgroups : groups.length ≤ Limits.standard.maxCollectionLength :=
    Nat.le_trans horder.1 (by decide)
  have hwritten : TransactionOf Limits.standard.maxCollectionLength groups salt
      (Writing.wireTransaction groups salt) :=
    Writing.wireTransaction_form hfields hgroups hcomponents hsalt (by decide)
  unfold readStream
  rw [hsettings]
  refine Writing.Wrapping.exists_rootValue (Spans.typed (standard .standard) .wireTransaction
    (Grammar.wireTransaction _)) (Shows.typed _ _ _) rfl rfl (by decide) (by decide)
    (fun depth _ c hc _ _ => readsAt_typed hc _ readsInside_wireTransactionFields)
    (fun depth hdepth => ?_) (Writing.composite_plain (by decide +kernel)) wrapping hfits
  have hroom : 8 ≤ depth := Nat.le_trans (by decide) hdepth
  exact (Grammar.wireTransaction_written_iff hroom).mpr hwritten

/-- **A signed transaction is read as it was written.**  Its signatures are found, in order;
a tree of an unknown type is kept as it is; and when the transaction that they sign is asked
for, the groups and the salt are there.  What is put around either stream does not matter. -/
theorem decodeAny_signedTransaction {given : List Writing.Signature}
    {groups : List ComponentGroup} {salt : PrivacySalt} (outer inner : Writing.Wrapping)
    (hunknown : ∀ signature ∈ given, signature.Unknown)
    (hgiven : given.length ≤ Limits.standard.maxCollectionLength) (horder : InOrder groups)
    (hcomponents : ∀ group ∈ groups, group.components.length ≤ Limits.standard.maxCollectionLength)
    (hsalt : salt.bytes.length = 32)
    (hfits : Fits (Writing.outermost outer given
      (inner.write (Writing.wireTransaction groups salt)))) :
    ∃ signed : SignedTransaction,
      (standard .standard).decodeAny (outer.write (Writing.signedTransaction given
        (inner.write (Writing.wireTransaction groups salt)))) =
          .ok (.known (.signedTransaction signed)) ∧
      List.Forall₂ Writing.Signature.Found given signed.signatures ∧
      (signed.wireTransaction (standard .standard)).result =
        .ok ⟨groups, salt, orderFault?_eq_none_iff.mpr horder⟩ := by
  have houter := Writing.fits_signedFields hfits
  -- The inner stream is one of the bytes in the outer list, so its sizes fit as well.
  obtain ⟨hobject, hparts⟩ := inner.length_le (Writing.wireTransaction groups salt)
  have hinner : Fits [Writing.wireTransaction groups salt] := by
    refine Writing.fits_of_stream houter ?_
    rw [List.flatten_singleton]
    exact hobject
  refine ⟨_, decodeAny_signedFields hfits hunknown hgiven, ?_, ?_⟩
  · rw [List.forall₂_map_right_iff, List.forall₂_same]
    exact fun signature _ => signature.found_read
  · refine Deferred.materialize_ofBytes (exists_readStream_wireTransaction horder hcomponents hsalt
      (hinner.of_composite List.mem_cons_self) fun henvelope => ?_)
    exact Writing.fits_of_stream houter (hparts henvelope)

/-- A signature with a tree of a type that nobody registered. -/
private def treeSignature : Writing.Signature :=
  ⟨[0x51, 0x52], [0x30, 0x2a], some ⟨"net.corda:example.Tree", [Writing.null, Writing.int 7]⟩,
    ⟨4, -1⟩⟩

private def notaryGroup : List ComponentGroup := [⟨0, []⟩, ⟨1, [⟨[0xaa]⟩, ⟨[]⟩]⟩]

theorem treeSignature_decoded : ∃ signed : SignedTransaction,
    (standard .standard).decodeAny (Writing.Wrapping.write ⟨true, true⟩
      (Writing.signedTransaction [treeSignature]
        (Writing.Wrapping.write ⟨false, true⟩ (Writing.wireTransaction notaryGroup zeroSalt)))) =
          .ok (.known (.signedTransaction signed)) ∧
    List.Forall₂ Writing.Signature.Found [treeSignature] signed.signatures ∧
    ∃ w, (signed.wireTransaction (standard .standard)).result = .ok w ∧
      w.groups = notaryGroup ∧ w.salt = zeroSalt := by
  have hunknown : treeSignature.Unknown := by
    rintro tree ⟨⟩
    decide +kernel
  have horder : InOrder notaryGroup := orderFault?_eq_none_iff.mp (by decide)
  have hfits : Fits (Writing.outermost ⟨true, true⟩ [treeSignature]
      (Writing.Wrapping.write ⟨false, true⟩ (Writing.wireTransaction notaryGroup zeroSalt))) := by
    unfold Fits
    decide +kernel
  obtain ⟨signed, hdecoded, hfound, hresult⟩ :=
    decodeAny_signedTransaction ⟨true, true⟩ ⟨false, true⟩
      (List.forall_mem_singleton.mpr hunknown) (by decide) horder (by decide) (by decide) hfits
  exact ⟨signed, hdecoded, hfound, _, hresult, rfl, rfl⟩

end Registry

end AmqpEnvelope
