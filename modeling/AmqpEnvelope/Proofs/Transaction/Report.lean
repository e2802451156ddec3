import AmqpEnvelope.Proofs.Decode.Field
import AmqpEnvelope.Proofs.Framing.Deferred
import AmqpEnvelope.Proofs.Written.Signed
import AmqpEnvelope.Report

/-!
# Reports on signed transactions

A signed transaction is reported with the component groups of its body, which is read by way of
the type that it has to have.  Inspected on its own, the body is read by way of its descriptor.  The
two reports list the same groups, since in front of the descriptor of a transaction both ways are
one (`Registry.decodeAny_of_wireTransaction`).

What a signed transaction holds is read off its grammar (`Grammar.signedTransaction_of_slot`): its
signatures stand in the stream one behind the other, and nothing has been read of its body.
-/

namespace AmqpEnvelope

open Cursor Written

/-! ## Signed transactions in a slot -/

namespace Grammar

variable {registry : Registry} {slots : Grammar Value} {bounds : Limits} {n : Nat} {bs : Bytes}
  {signed : SignedTransaction}

/-- What is made of all fields of a composite is made of the composite, and it is no other value. -/
theorem composite_of_mapped {α β : Type} {f : α → β} {g : Grammar α} {value : β}
    (h : composite (fun _ => f <$> g) bounds n bs value) :
    ∃ a, composite (fun _ => g) bounds n bs a ∧ value = f a := by
  rw [composite_map] at h
  exact map_iff.mp h

/-- Of all the constructors only one makes a signed transaction. -/
theorem signedTransaction_of_constructed {constructor : Constructor}
    (h : constructed registry slots constructor bounds n bs (.known (.signedTransaction signed))) :
    composite (fun _ => signedTransaction registry slots) bounds n bs signed := by
  cases constructor with
  | nestedStream =>
      obtain ⟨_, -, hvalue⟩ := composite_of_mapped h
      cases hvalue
  | scripted script =>
      rw [constructed] at h
      cases hentry : (Constructor.scripted script).entry with
      | dispatched =>
          rw [hentry] at h
          obtain ⟨-, -, _, _, _, -, -, hnone⟩ := (composite_written_iff fun _ => Splits.fail).mp h
          exact hnone.elim
      | selfDescribing =>
          rw [hentry] at h
          exact h.elim
  | described k =>
      cases k with
      | signedTransaction =>
          obtain ⟨_, hknown, hvalue⟩ := composite_of_mapped h
          cases hvalue
          obtain ⟨_, hsigned, hvalue⟩ := composite_of_mapped hknown
          cases hvalue
          exact hsigned
      | publicKey =>
          obtain ⟨_, hknown, hvalue⟩ := map_iff.mp h
          cases hvalue
          obtain ⟨_, -, hvalue⟩ := map_iff.mp hknown
          cases hvalue
      | throwable =>
          obtain ⟨_, hknown, -⟩ := map_iff.mp h
          exact hknown.elim
      | _ =>
          obtain ⟨_, hknown, hvalue⟩ := composite_of_mapped h
          cases hvalue
          obtain ⟨_, -, hvalue⟩ := composite_of_mapped hknown
          cases hvalue

theorem signedTransaction_of_slot {levels : Nat} {root : Bool}
    (h : slot registry levels root bounds n bs (.known (.signedTransaction signed))) :
    ∃ levels, composite (fun _ => signedTransaction registry (slot registry levels false))
      bounds n bs signed := by
  cases levels with
  | zero => exact h.elim
  | succ levels =>
      change nullOr .null (headed _) bounds n bs _ at h
      unfold nullOr at h
      split at h
      · cases h.2
      · obtain ⟨d, -, hdispatched⟩ := h
        rcases dispatched_cases hdispatched with ⟨constructor, -, hmade⟩ | ⟨-, hkept⟩
        · exact ⟨levels, signedTransaction_of_constructed hmade⟩
        · obtain ⟨-, -, _, _, _, -, -, -, hvalue⟩ := hkept
          cases hvalue

end Grammar

/-! ## Signatures in a stream -/

namespace Written

theorem Described.suffix {raw : RawDescriptor} {body bytes : Bytes} (h : Described raw body bytes) :
    body <:+ bytes := by
  obtain ⟨descriptor, rfl, -⟩ := h
  exact (List.suffix_append descriptor body).trans (List.suffix_cons _ _)

/-- The elements of a list stand at its end. -/
theorem ListOf.flatten_suffix {cap : Nat} {items : List Bytes} {bytes : Bytes}
    (h : ListOf cap items bytes) : items.flatten <:+ bytes := by
  rcases h with ⟨rfl, -⟩ | ⟨form, -, rest, rfl, -, count, -, -, size, rfl, -, -⟩
  · exact List.nil_suffix
  · exact ((List.suffix_append count _).trans (List.suffix_append size _)).trans
      (List.suffix_cons _ _)

end Written

/-- These bytes are read as the signature. -/
def SignatureIn (registry : Registry) (item : Bytes) (signature : TransactionSignature) : Prop :=
  ∃ bounds levels, Grammar.typed registry .transactionSignature
    (Grammar.transactionSignature registry (Grammar.slot registry levels false)) bounds 1 item
      signature

/-- The signatures of a signed transaction are read one behind the other, and its body is kept
as it is. -/
theorem Grammar.signatures_of_composite {registry : Registry} {levels n : Nat} {bounds : Limits}
    {bs : Bytes} {signed : SignedTransaction}
    (h : composite (fun _ => signedTransaction registry (slot registry levels false)) bounds n bs
      signed) :
    (∃ items, items.flatten <:+: bs ∧ List.Forall₂ (SignatureIn registry) items signed.signatures) ∧
      ∃ stream, signed.body = .ofBytes stream := by
  obtain ⟨-, -, raw, fieldList, fields, hdescribed, hfields, list, body, stream, rfl, hlist, -,
    hbody⟩ := (composite_written_iff fun _ => splits_signedTransaction _ _).mp h
  obtain ⟨-, -, items, hitems, hall⟩ := (listOf_written_iff (Spans.typed _ _ _)).mp hlist
  refine ⟨⟨items, ?_, hall.imp fun item signature hread => ⟨_, _, hread⟩⟩, stream, hbody⟩
  have hinner : list <:+: [list, body].flatten := ⟨[], body, by simp⟩
  exact ((hitems.flatten_suffix.isInfix.trans hinner).trans hfields.flatten_suffix.isInfix).trans
    hdescribed.suffix.isInfix

namespace Registry

variable {registry : Registry} {settings : Settings} {bytes : Bytes} {signed : SignedTransaction}

/-- What is known of a signed transaction that stands at the root of a stream. -/
theorem signatures_of_decodeAny (hregistry : registry.Declared)
    (h : registry.decodeAny bytes = .ok (.known (.signedTransaction signed))) :
    (∃ items, items.flatten <:+: bytes ∧
      List.Forall₂ (SignatureIn registry) items signed.signatures) ∧
      ∃ stream, signed.body = .ofBytes stream := by
  obtain ⟨enveloped, root, left, hroot, hdecode⟩ := exists_rootSlot_of_decodeRoot h
  have hwalk := walks_toRoot registry.settings.framing
    (Cursor.start bytes registry.settings.limits)
  rw [after_of_ok hroot] at hwalk
  obtain ⟨n, bs, hvalue, hpasses⟩ := (readsAt_target hregistry (coherent_of_rootSlot hroot)
    (Nat.lt_succ_self _) .slot).sound hdecode
  obtain ⟨levels, hcomposite⟩ := Grammar.signedTransaction_of_slot hvalue
  obtain ⟨⟨items, hitems, hall⟩, hbody⟩ := Grammar.signatures_of_composite hcomposite
  refine ⟨⟨items, ?_, hall⟩, hbody⟩
  -- What is read at the root slot is a part of the stream.
  have hfront : bs <+: bytes.drop root.position := hwalk.unread_eq ▸ hpasses.1.front
  exact (hitems.trans hfront.isInfix).trans (List.drop_suffix _ _).isInfix

/-! ## Bodies -/

/-- To decode a stream as a wire transaction is to ask for the transaction in it. -/
theorem decodeRoot_wireTransaction_eq (registry : Registry) (stream : Bytes) :
    registry.decodeRoot (.kind .wireTransaction) stream =
      Known.wireTransaction <$>
        ((Deferred.ofBytes stream).materialize Decode.wireTransaction registry).result := by
  have htarget : registry.decodeTarget (.kind .wireTransaction) =
      Known.wireTransaction <$> Decode.wireTransaction registry :=
    (Decode.map_composite _ _).symm
  have hempty : (Deferred.ofBytes stream : Deferred WireTransaction).cached = none := rfl
  have hbytes : (Deferred.ofBytes stream : Deferred WireTransaction).bytes = stream := rfl
  rw [decodeRoot, htarget, readStream_map, Deferred.materialize, hempty, hbytes]
  dsimp only
  cases registry.readStream (Decode.wireTransaction registry) stream with
  | ok transaction left => rfl
  | error e left => rfl

/-- Only composites with the descriptor of a wire transaction are decoded as one. -/
theorem peekDescriptor_of_wireTransaction {c left : Cursor} (hc : c.Coherent) {value : Known}
    (h : (standard settings).decodeTarget (.kind .wireTransaction) c = .ok value left) :
    peekDescriptor c = .ok (some Kind.wireTransaction.descriptor) c := by
  obtain ⟨offset, c₁, hoffset, h⟩ := bind_eq_ok_iff.mp h
  obtain ⟨-, rfl⟩ := asks_eq_ok_iff.mp hoffset
  obtain ⟨d, c₂, henter, h⟩ := bind_eq_ok_iff.mp h
  rw [Decode.peekDescriptor_of_enterComposite hc henter]
  split at h
  next haccepts =>
    rcases standard_accepts_iff.mp haccepts with rfl | ⟨hkind, -⟩
    · rfl
    · cases hkind
  next => exact absurd h throw_ne_ok

/-- **A body is read the same by its type and by its descriptor.** -/
theorem decodeAny_of_wireTransaction {stream : Bytes} {value : Known}
    (h : (standard settings).decodeRoot (.kind .wireTransaction) stream = .ok value) :
    (standard settings).decodeAny stream = .ok (.known value) := by
  obtain ⟨enveloped, root, left, hroot, hdecode⟩ := exists_rootSlot_of_decodeRoot h
  have hpeek := peekDescriptor_of_wireTransaction (coherent_of_rootSlot hroot) hdecode
  have hresolve : (standard settings).resolve Kind.wireTransaction.descriptor =
      some (.described .wireTransaction) :=
    standard_resolve_iff.mpr
      (List.mem_append_left _ (List.mem_map.mpr ⟨.wireTransaction, by decide, rfl⟩))
  rw [decodeAny_eq_known (standard_declared settings) hroot hpeek hresolve, h]
  rfl

end Registry

/-! ## Lines -/

namespace Report

/-- One row for each signature, in its place. -/
structure ListsSignatures (signatures : List TransactionSignature) (rows : List String) : Prop where
  length_eq : rows.length = signatures.length
  row : ∀ (i : Nat) (signature : TransactionSignature), signatures[i]? = some signature →
    rows[i]? = some s!"  [{i}] key {signature.signer.x509.length} bytes, platform {signature.metadata.platformVersion}, scheme {signature.metadata.schemeNumber}"

/-- One row for each component group, with the kind whose ordinal is its place; the numbers in
the rows add up to the number of all components. -/
structure ListsGroups (transaction : WireTransaction) (rows : List String) : Prop where
  length_eq : rows.length = transaction.groups.length
  row : ∀ (i : Nat) (group : ComponentGroup), transaction.groups[i]? = some group →
    ∃ kind : GroupKind, kind.ordinal = i ∧ rows[i]? =
      some s!"  {Text.padLeft 2 (toString i)} {Text.padRight 12 kind.name} {group.components.length} components"
  sum_eq : (transaction.groups.map fun group => group.components.length).sum =
    transaction.componentCount

theorem signatureLines_eq (signatures : List TransactionSignature) :
    ∃ rows, ListsSignatures signatures rows ∧
      signatureLines signatures = s!"signatures: {signatures.length}" :: rows := by
  refine ⟨_, ⟨?_, ?_⟩, rfl⟩
  · rw [List.length_map, List.length_zipIdx]
  · intro i signature hsignature
    rw [List.getElem?_map, List.getElem?_zipIdx, hsignature, Nat.zero_add]
    rfl

theorem groupLines_eq (transaction : WireTransaction) :
    ∃ rows, ListsGroups transaction rows ∧
      groupLines transaction = s!"component groups: {transaction.groups.length}" :: rows := by
  refine ⟨_, ⟨?_, ?_, ?_⟩, rfl⟩
  · rw [List.length_map, transaction.length_orderedGroups]
  · intro i group hgroup
    have hi : i < 8 :=
      Nat.lt_of_lt_of_le (List.getElem?_eq_some_iff.mp hgroup).1 transaction.length_groups_le
    obtain ⟨kind, rfl⟩ := GroupKind.exists_ordinal hi
    have hentry : transaction.orderedGroups[kind.ordinal]? = some (kind, group.components) :=
      (transaction.orderedGroups_getElem?_eq_some_iff _ _ _).mpr ⟨rfl, group, hgroup, rfl⟩
    refine ⟨kind, rfl, ?_⟩
    rw [List.getElem?_map, hentry]
    rfl
  · rw [List.sum_eq_foldl, List.foldl_map, WireTransaction.componentCount]

/-- What is reported of a signed transaction that was decoded from a stream. -/
structure ReportsSigned (registry : Registry) (bytes : Bytes) (signed : SignedTransaction) :
    Prop where
  /-- The signatures are read from the stream one behind the other. -/
  signatures_in_order : ∃ items, items.flatten <:+: bytes ∧
    List.Forall₂ (SignatureIn registry) items signed.signatures
  /-- There is a report if and only if the body is decoded as a wire transaction. -/
  succeeds_iff : (∃ report, lines registry (.known (.signedTransaction signed)) = .ok report) ↔
    ∃ w, registry.decodeRoot (.kind .wireTransaction) signed.body.bytes = .ok (.wireTransaction w)
  /-- Otherwise the error is that of the body. -/
  fails_iff : ∀ e, lines registry (.known (.signedTransaction signed)) = .error e ↔
    registry.decodeRoot (.kind .wireTransaction) signed.body.bytes = .error e
  /-- The report lists the signatures, and the groups as in the report on the body. -/
  report_eq : ∀ w,
    registry.decodeRoot (.kind .wireTransaction) signed.body.bytes = .ok (.wireTransaction w) →
      ∃ signatures groups, ListsSignatures signed.signatures signatures ∧ ListsGroups w groups ∧
        lines registry (.known (.signedTransaction signed)) =
          .ok (s!"root: {(Value.known (.signedTransaction signed)).typeName}"
            :: s!"signatures: {signed.signatures.length}" :: (signatures ++
              s!"component groups: {w.groups.length}" :: groups)) ∧
        registry.decodeAny signed.body.bytes = .ok (.known (.wireTransaction w)) ∧
        lines registry (.known (.wireTransaction w)) =
          .ok (s!"root: {(Value.known (.wireTransaction w)).typeName}"
            :: s!"component groups: {w.groups.length}" :: groups)

/-- The report is made of the transaction that was signed, if it is there when it is asked for. -/
theorem lines_signed_eq (registry : Registry) (signed : SignedTransaction) :
    lines registry (.known (.signedTransaction signed)) =
      (fun transaction => s!"root: {(Value.known (.signedTransaction signed)).typeName}"
        :: (signatureLines signed.signatures ++ groupLines transaction)) <$>
          (signed.wireTransaction registry).result := by
  simp only [lines]
  cases (signed.wireTransaction registry).result with
  | ok transaction => rfl
  | error e => rfl

/-- **A signed transaction is reported as its body is**, under every standard registry. -/
theorem reports_signed {settings : Settings} {bytes : Bytes} {signed : SignedTransaction}
    (h : (Registry.standard settings).decodeAny bytes =
      .ok (.known (.signedTransaction signed))) :
    ReportsSigned (.standard settings) bytes signed := by
  obtain ⟨hsignatures, stream, hstream⟩ :=
    Registry.signatures_of_decodeAny (Registry.standard_declared settings) h
  have hbytes : signed.body.bytes = stream := congrArg Deferred.bytes hstream
  -- Nothing is present yet, so asking for the body decodes it.
  have hbody : (Registry.standard settings).decodeRoot (.kind .wireTransaction) signed.body.bytes =
      Known.wireTransaction <$> (signed.wireTransaction (.standard settings)).result := by
    rw [Registry.decodeRoot_wireTransaction_eq, SignedTransaction.wireTransaction, hbytes, hstream]
  have hlines := lines_signed_eq (.standard settings) signed
  cases hresult : (signed.wireTransaction (.standard settings)).result with
  | error e =>
      rw [hresult] at hbody hlines
      refine ⟨hsignatures, ?_, ?_, ?_⟩
      · rw [hlines, hbody]
        exact iff_of_false nofun nofun
      · intro e'
        rw [hlines, hbody]
        exact Iff.intro (fun h => congrArg _ (Except.error.inj h))
          fun h => congrArg _ (Except.error.inj h)
      · intro w hw
        rw [hbody] at hw
        cases hw
  | ok w =>
      rw [hresult] at hbody hlines
      refine ⟨hsignatures, ?_, ?_, ?_⟩
      · exact iff_of_true ⟨_, hlines⟩ ⟨w, hbody⟩
      · intro e
        rw [hlines, hbody]
        exact iff_of_false nofun nofun
      · intro w' hw
        obtain rfl : w = w' := by
          rw [hbody] at hw
          cases hw
          rfl
        obtain ⟨signatures, hlisted, hsignatureLines⟩ := signatureLines_eq signed.signatures
        obtain ⟨groups, hgroups, hgroupLines⟩ := groupLines_eq w
        refine ⟨signatures, groups, hlisted, hgroups, ?_,
          Registry.decodeAny_of_wireTransaction hbody, ?_⟩
        · rw [hlines, hsignatureLines, ← hgroupLines]
          rfl
        · rw [lines, hgroupLines]

/-- A signature of the whole transaction. -/
private def soleSignature : Writing.Signature := ⟨[0x51, 0x52], [0x30, 0x2a], none, ⟨4, -1⟩⟩

/-- Two components to consume, and none to produce. -/
private def consumed : List ComponentGroup := [⟨0, [⟨[0xaa]⟩, ⟨[]⟩]⟩, ⟨1, []⟩]

private def consumedSalt : PrivacySalt := ⟨List.replicate 32 0x01⟩

/-- The transaction in an envelope. -/
private def consumedBody : Bytes :=
  Writing.Wrapping.write ⟨false, true⟩ (Writing.wireTransaction consumed consumedSalt)

/-- The signed transaction behind a preamble. -/
private def consumedStream : Bytes :=
  Writing.Wrapping.write ⟨true, false⟩ (Writing.signedTransaction [soleSignature] consumedBody)

theorem reports_signed_consumed : ∃ (signed : SignedTransaction) (w : WireTransaction),
    (Registry.standard .standard).decodeAny consumedStream =
        .ok (.known (.signedTransaction signed)) ∧
      (Registry.standard .standard).decodeRoot (.kind .wireTransaction) signed.body.bytes =
        .ok (.wireTransaction w) ∧
      w.groups = consumed ∧ ReportsSigned (.standard .standard) consumedStream signed := by
  have hunknown : soleSignature.Unknown := by
    rintro tree ⟨⟩
  have hfits : Fits (Writing.outermost ⟨true, false⟩ [soleSignature] consumedBody) := by
    unfold Fits
    decide +kernel
  have hdecoded : (Registry.standard .standard).decodeAny consumedStream =
      .ok (.known (.signedTransaction ⟨[soleSignature.read], .ofBytes consumedBody⟩)) :=
    Registry.decodeAny_signedFields hfits (List.forall_mem_singleton.mpr hunknown) (by decide)
  have hparts : Fits (Writing.parts (Writing.wireTransaction consumed consumedSalt)) :=
    Writing.fits_of_stream (Writing.fits_signedFields hfits)
      ((Writing.Wrapping.length_le ⟨false, true⟩ _).2 rfl)
  have hfields : Fits [Writing.list (consumed.map Writing.componentGroup),
      Writing.privacySalt consumedSalt] :=
    hparts.of_composite List.mem_cons_self
  have horder : InOrder consumed := orderFault?_eq_none_iff.mp (by decide)
  have hbody : (Registry.standard .standard).decodeRoot (.kind .wireTransaction) consumedBody =
      .ok (.wireTransaction ⟨consumed, consumedSalt, orderFault?_eq_none_iff.mpr horder⟩) := by
    rw [Registry.decodeRoot_wireTransaction_eq, consumedBody, Deferred.materialize_ofBytes
      (Registry.exists_readStream_wireTransaction horder (by decide) (by decide) hfields
        fun _ => hparts)]
    rfl
  exact ⟨_, _, hdecoded, hbody, rfl, reports_signed hdecoded⟩

end Report

end AmqpEnvelope
