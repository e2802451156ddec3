import AmqpEnvelope.Proofs.Deferred.Pool
import AmqpEnvelope.Proofs.Value.Content

/-!
# Values that are decoded, asked and copied

Values come from decoding, stand in one another, are asked for the transactions in them, and are
copied (`Value.Produced`).  Whatever is done to them, they are compared by content
(`Value.compares_by_content`).

A transaction may be asked for wherever it stands.  What stands around a value in another one is a
`Host`, so a step deep inside is a step within some host, and what it leaves alone is shown by
induction on the hosts.

A captured composite is compared with the place of its body, too.  That does not count, since the
place is where the descriptor ends, and one encoding has one descriptor in front.
-/

namespace AmqpEnvelope

open Cursor

/-! ## Values in values -/

/-- A value with room for another one in it. -/
inductive Host where
  /-- The tree of a signature. -/
  | tree (bytes : Bytes) (signer : PublicKey) (metadata : SignatureMetadata)
  /-- The tree of one of the signatures over a transaction. -/
  | signatureTree (before : List TransactionSignature) (bytes : Bytes) (signer : PublicKey)
      (metadata : SignatureMetadata) (after : List TransactionSignature)
      (body : Deferred WireTransaction)
  /-- A slot of a record. -/
  | slot (type : RecordType) (before after : List Field)

/-- The value with another one at the host. -/
def Host.fill : Host → Value → Value
  | .tree bytes signer metadata, value =>
      .known (.transactionSignature ⟨bytes, signer, some value, metadata⟩)
  | .signatureTree before bytes signer metadata after body, value =>
      .known (.signedTransaction ⟨before ++ ⟨bytes, signer, some value, metadata⟩ :: after, body⟩)
  | .slot type before after, value => .known (.record type (before ++ .slot value :: after))

theorem Host.content_fill_congr (host : Host) {v v' : Value} (h : v.content = v'.content) :
    (host.fill v).content = (host.fill v').content := by
  cases host <;>
    simp [fill, Value.content, Known.content, TransactionSignature.content, treeContent,
      SignedTransaction.content, signaturesContent_eq_map, fieldsContent_eq_map, Field.content, h]

theorem signaturesCaptures_append (before after : List TransactionSignature) :
    signaturesCaptures (before ++ after) =
      signaturesCaptures before ++ signaturesCaptures after := by
  induction before with
  | nil => rfl
  | cons signature rest ih =>
      rw [List.cons_append, signaturesCaptures, signaturesCaptures, ih, List.append_assoc]

theorem fieldsCaptures_append (before after : List Field) :
    fieldsCaptures (before ++ after) = fieldsCaptures before ++ fieldsCaptures after := by
  induction before with
  | nil => rfl
  | cons field rest ih =>
      rw [List.cons_append, fieldsCaptures, fieldsCaptures, ih, List.append_assoc]

/-- What is captured in a value is captured in the values around it. -/
theorem Host.captures_fill (host : Host) : ∃ before after, ∀ v : Value,
    (host.fill v).captures = before ++ v.captures ++ after := by
  cases host with
  | tree bytes signer metadata =>
      refine ⟨[], [], fun v => ?_⟩
      rw [List.nil_append, List.append_nil]
      rfl
  | signatureTree before bytes signer metadata after body =>
      refine ⟨signaturesCaptures before, signaturesCaptures after, fun v => ?_⟩
      exact (signaturesCaptures_append before _).trans (List.append_assoc _ _ _).symm
  | slot type before after =>
      refine ⟨fieldsCaptures before, fieldsCaptures after, fun v => ?_⟩
      exact (fieldsCaptures_append before _).trans (List.append_assoc _ _ _).symm

namespace Value

/-! ## Asking for transactions -/

/-- One of the signed transactions in a value is asked for its transaction. -/
inductive Asked : Value → Value → Prop
  | body (registry : Registry) (signed : SignedTransaction) :
      Asked (.known (.signedTransaction signed))
        (.known (.signedTransaction
          ⟨signed.signatures, (signed.wireTransaction registry).stream⟩))
  | within (host : Host) {v v' : Value} (h : Asked v v') : Asked (host.fill v) (host.fill v')

/-- Whatever comes of it, the content stays. -/
theorem Asked.content_eq {v v' : Value} (h : Asked v v') : v'.content = v.content := by
  induction h with
  | body registry signed =>
      obtain ⟨signatures, body⟩ := signed
      have hbytes : (body.materialize Decode.wireTransaction registry).stream.bytes = body.bytes :=
        Deferred.materialize_bytes (w := .transaction)
      simp only [content, Known.content, SignedTransaction.content,
        SignedTransaction.wireTransaction, hbytes]
  | within host _ ih => exact host.content_fill_congr ih

theorem Asked.captures_eq {v v' : Value} (h : Asked v v') : v'.captures = v.captures := by
  induction h with
  | body registry signed =>
      obtain ⟨signatures, body⟩ := signed
      rfl
  | within host _ ih =>
      obtain ⟨before, after, hcaptures⟩ := host.captures_fill
      rw [hcaptures, hcaptures, ih]

/-- Any number of requests, one after the other. -/
theorem content_eq_of_asked {v v' : Value} (h : Relation.ReflTransGen Asked v v') :
    v'.content = v.content := by
  induction h with
  | refl => rfl
  | tail _ hlast ih => exact hlast.content_eq.trans ih

end Value

/-! ## Copies -/

theorem Deferred.copy_eq {α : Type} (d : Deferred α) : d.copy = d := rfl

mutual

theorem Value.copy_eq : (v : Value) → v.copy = v
  | .null => rfl
  | .known k => by rw [Value.copy, Known.copy_eq k]
  | .captured _ => rfl
  | .serialized _ => rfl

theorem Known.copy_eq (k : Known) : k.copy = k := by
  cases k with
  | transactionSignature signature => rw [Known.copy, TransactionSignature.copy_eq signature]
  | signedTransaction signed => rw [Known.copy, SignedTransaction.copy_eq signed]
  | record type fields => rw [Known.copy, copyFields_eq fields]
  | _ => rfl

theorem TransactionSignature.copy_eq : (s : TransactionSignature) → s.copy = s
  | ⟨_, _, tree, _⟩ => by rw [TransactionSignature.copy, copyTree_eq tree]

theorem SignedTransaction.copy_eq : (s : SignedTransaction) → s.copy = s
  | ⟨signatures, body⟩ => by
      rw [SignedTransaction.copy, copySignatures_eq signatures, Deferred.copy_eq]

theorem Field.copy_eq : (f : Field) → f.copy = f
  | .scalar _ => rfl
  | .slot v => by rw [Field.copy, Value.copy_eq v]

theorem copyTree_eq : (tree : Option Value) → copyTree tree = tree
  | none => rfl
  | some v => by rw [copyTree, Value.copy_eq v]

theorem copySignatures_eq : (signatures : List TransactionSignature) →
    copySignatures signatures = signatures
  | [] => rfl
  | s :: rest => by rw [copySignatures, TransactionSignature.copy_eq s, copySignatures_eq rest]

theorem copyFields_eq : (fields : List Field) → copyFields fields = fields
  | [] => rfl
  | f :: rest => by rw [copyFields, Field.copy_eq f, copyFields_eq rest]

end

/-! ## Produced values -/

/-- What was decoded for a target, as a value. -/
def Target.asValue : (t : Target) → t.Carrier → Value
  | .slot => id
  | .kind _ => .known

theorem Target.captures_asValue (t : Target) (value : t.Carrier) :
    (t.asValue value).captures = t.captures value := by
  cases t <;> rfl

/-- What comes from decoding described types. -/
inductive Value.Produced : Value → Prop
  /-- A value is decoded anywhere in an input. -/
  | decoded {registry : Registry} {bytes : Bytes} {limits : Limits} {c c' : Cursor} (t : Target)
      {value : t.Carrier} (hregistry : registry.Declared) (hc : Reachable bytes limits c)
      (h : registry.decodeTarget t c = .ok value c') : Produced (t.asValue value)
  /-- A composite is decoded that has to carry a given descriptor. -/
  | composite {registry : Registry} {bytes : Bytes} {limits : Limits} {c c' : Cursor}
      (d : Descriptor) {value : Value} (hregistry : registry.Declared)
      (hc : Reachable bytes limits c) (h : registry.decodeAs d c = .ok value c') : Produced value
  /-- A complete stream is decoded. -/
  | stream {registry : Registry} {bytes : Bytes} (t : Target) {value : t.Carrier}
      (hregistry : registry.Declared) (h : registry.decodeRoot t bytes = .ok value) :
      Produced (t.asValue value)
  /-- A value stands in another one. -/
  | part (host : Host) {value : Value} (h : Produced (host.fill value)) : Produced value
  /-- One of the transactions in it has been asked for. -/
  | asked {value value' : Value} (h : Produced value) (hasked : Asked value value') :
      Produced value'
  | copied {value : Value} (h : Produced value) : Produced value.copy

/-- A composite that has to carry a given descriptor is what a slot would hold. -/
theorem Decode.slot_of_checked {resolver : Resolver} {d : Descriptor} {c c' : Cursor}
    {value : Value} (h : checked resolver d c = .ok value c') :
    slot resolver c = .ok value c' := by
  obtain ⟨found, c₁, hpeek, hrest⟩ := bind_eq_ok_iff.mp h
  obtain rfl := peekDescriptor_stays hpeek
  cases found with
  | none => cases hrest
  | some found =>
      by_cases hfound : found = d
      · subst hfound
        simp only [if_true] at hrest
        rw [slot_of_peekDescriptor hpeek, hrest]
      · simp only [hfound, if_false] at hrest
        cases hrest

/-- One encoding is kept in one way. -/
theorem Capture.Kept.eq_of_bytes_eq {p q : Capture} (hp : p.Kept) (hq : q.Kept)
    (hdescriptor : p.descriptor = q.descriptor) (hbytes : p.bytes = q.bytes) : p = q := by
  obtain ⟨bounds, -, -, head, raw, body, hsplit, hraw, -, hcapture⟩ := hp
  obtain ⟨bounds', -, -, head', raw', body', hsplit', hraw', -, hcapture'⟩ := hq
  have happend : head ++ body = head' ++ body' := by
    rw [hsplit, hsplit'] at hbytes
    exact (List.cons.inj hbytes).2
  obtain rfl := (Extent.of_descriptor (hraw bounds) 0).2.unique
    (Extent.of_descriptor (hraw' bounds) 0).2 happend
  rw [Value.captured.inj hcapture, Value.captured.inj hcapture', hdescriptor, hbytes]

namespace Value

theorem kept_of_decodeTarget {registry : Registry} (hregistry : registry.Declared) {c c' : Cursor}
    (hc : c.Coherent) (t : Target) {value : t.Carrier}
    (h : registry.decodeTarget t c = .ok value c') :
    ∀ p ∈ (t.asValue value).captures, p.Kept := by
  obtain ⟨n, bs, hvalue, -⟩ := (readsAt_target hregistry hc (Nat.lt_succ_self _) t).sound h
  intro p hp
  rw [t.captures_asValue] at hp
  exact Grammar.kept_of_mem_captures hvalue hp

/-- Every capture in a produced value, at any depth, is what is kept of its own bytes. -/
theorem Produced.kept {value : Value} (h : Produced value) : ∀ p ∈ value.captures, p.Kept := by
  induction h with
  | decoded t hregistry hc h => exact kept_of_decodeTarget hregistry hc.coherent t h
  | composite d hregistry hc h =>
      exact kept_of_decodeTarget hregistry hc.coherent .slot (Decode.slot_of_checked h)
  | stream t hregistry h =>
      obtain ⟨enveloped, root, left, hroot, hdecode⟩ := Registry.exists_rootSlot_of_decodeRoot h
      exact kept_of_decodeTarget hregistry (Registry.coherent_of_rootSlot hroot) t hdecode
  | @part host value _ ih =>
      obtain ⟨before, after, hcaptures⟩ := host.captures_fill
      intro p hp
      refine ih p ?_
      rw [hcaptures]
      exact List.mem_append_left _ (List.mem_append_right _ hp)
  | asked _ hasked ih => rwa [hasked.captures_eq]
  | copied _ ih => rwa [copy_eq]

/-! ## Types -/

/-- What is equal is of one type. -/
theorem Known.heldType_eq_of_same {k k' : Known} (h : k.same k' = true) :
    k'.heldType = k.heldType := by
  cases k <;> cases k' <;> simp_all [Known.same, Known.heldType]

theorem take?_eq_downcast? (value : Value) (type : HeldType) :
    value.take? type = value.downcast? type := by
  cases value <;> simp [take?, held?, downcast?, Held.type, eq_comm]

/-- How values are compared, copied and taken apart. -/
structure ComparesByContent : Prop where
  /-- Equal is what has the same content. -/
  same_iff : ∀ a b : Value, a.same b = true ↔ a.content = b.content
  refl : ∀ a : Value, a.same a = true
  symm : ∀ a b : Value, a.same b = true → b.same a = true
  trans : ∀ a b c : Value, a.same b = true → b.same c = true → a.same c = true
  /-- A copy is equal to its original. -/
  copy : ∀ a : Value, a.copy.same a = true
  /-- Whatever transactions have been asked for in either value, at any depth and by any registry,
  the comparison comes out the same. -/
  asked : ∀ a a' b b' : Value, Relation.ReflTransGen Asked a a' →
    Relation.ReflTransGen Asked b b' → a'.same b' = a.same b
  /-- Null is equal to null only, -/
  null : ∀ b : Value, Value.null.same b = true → b = .null
  /-- a value of a described type to values of that type, -/
  known : ∀ (k : Known) (b : Value), (Value.known k).same b = true →
    ∃ k', b = .known k' ∧ k'.heldType = k.heldType
  /-- a captured composite to captured composites, -/
  captured : ∀ (p : Capture) (b : Value), (Value.captured p).same b = true →
    ∃ q, b = .captured q
  /-- and a nested stream to nested streams with the same bytes. -/
  serialized : ∀ (s : SerializedBytes) (b : Value), (Value.serialized s).same b = true →
    b = .serialized s
  /-- Captured composites are equal if their descriptors and bytes are, -/
  captured_iff : ∀ p q : Capture, Produced (.captured p) → Produced (.captured q) →
    ((Value.captured p).same (.captured q) = true ↔ p.descriptor = q.descriptor ∧
      p.bytes = q.bytes)
  /-- as far down in two values as there are any. -/
  nested_captured_iff : ∀ a b : Value, Produced a → Produced b → ∀ p ∈ a.captures,
    ∀ q ∈ b.captures, p = q ↔ p.descriptor = q.descriptor ∧ p.bytes = q.bytes
  /-- To take what a copy holds gives what the value holds, for the same types. -/
  taken : ∀ (a : Value) (type : HeldType), a.copy.take? type = a.downcast? type

theorem eq_iff_of_produced {a b : Value} (ha : Produced a) (hb : Produced b) {p q : Capture}
    (hp : p ∈ a.captures) (hq : q ∈ b.captures) :
    p = q ↔ p.descriptor = q.descriptor ∧ p.bytes = q.bytes := by
  constructor
  · rintro rfl
    exact ⟨rfl, rfl⟩
  · exact fun ⟨hdescriptor, hbytes⟩ =>
      (ha.kept p hp).eq_of_bytes_eq (hb.kept q hq) hdescriptor hbytes

/-- **Values are compared by content**, whatever has been done to them since they were decoded. -/
theorem compares_by_content : ComparesByContent where
  same_iff := Value.same_iff
  refl a := (a.same_iff a).mpr rfl
  symm a b h := (b.same_iff a).mpr ((a.same_iff b).mp h).symm
  trans a b c hab hbc := (a.same_iff c).mpr (((a.same_iff b).mp hab).trans ((b.same_iff c).mp hbc))
  copy a := by rw [copy_eq, a.same_iff]
  asked a a' b b' ha hb := by
    rw [Bool.eq_iff_iff, a'.same_iff, a.same_iff, content_eq_of_asked ha, content_eq_of_asked hb]
  null b h := by
    cases b with
    | null => rfl
    | _ => cases h
  known k b h := by
    cases b with
    | known k' => exact ⟨k', rfl, Known.heldType_eq_of_same h⟩
    | _ => cases h
  captured p b h := by
    cases b with
    | captured q => exact ⟨q, rfl⟩
    | _ => cases h
  serialized s b h := by
    cases b with
    | serialized s' => exact congrArg serialized (eq_of_beq h).symm
    | _ => cases h
  captured_iff p q hp hq := by
    rw [same_iff, content, content, captured.injEq]
    exact eq_iff_of_produced hp hq List.mem_cons_self List.mem_cons_self
  nested_captured_iff _ _ ha hb _ hp _ hq := eq_iff_of_produced ha hb hp hq
  taken a type := by rw [copy_eq, take?_eq_downcast?]

end Value

end AmqpEnvelope
