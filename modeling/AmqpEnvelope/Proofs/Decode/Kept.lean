import AmqpEnvelope.Proofs.Decode.Policy
import AmqpEnvelope.Proofs.Framing.Transparent
import AmqpEnvelope.Proofs.Grammar.Captures

/-!
# Captured composites by themselves

The bytes of a captured composite are set apart by skipping, and its body by another look at the
cursor, with a frame open.  Both go by the same descriptor, so a capture can be told from its own
bytes (`Capture.Stable`): whatever the composite stood in, they are the span that was read, and
decoded again they are captured again, with the same descriptor and the same body.
-/

namespace AmqpEnvelope

open Cursor Written

namespace Grammar

variable {bounds : Limits} {n : Nat} {p : Capture}

/-- Behind the marker and the descriptor of what is kept stands the body, one value that nests
one level less. -/
theorem kept_body (h : kept p.descriptor bounds n p.bytes (.captured p)) :
    ∃ head raw inner, p.bytes = FormatCode.described.toByte :: (head ++ p.body) ∧
      (∀ bounds, descriptor bounds 0 head raw) ∧ raw.descriptor = p.descriptor ∧
        bounds.maxDepth = inner + 1 ∧ Extent inner p.body := by
  obtain ⟨-, hextent, head, raw, body, hbytes, hraw, hd, hvalue⟩ := h
  have hself : p = Capture.of p.descriptor p.bytes (1 + head.length) := Value.captured.inj hvalue
  have hle : 1 + head.length ≤ p.bytes.length := by
    rw [hbytes, List.length_cons, List.length_append]
    omega
  have hbody : p.body = body := by
    have hoffset : p.bodyOffset = 1 + head.length := by
      rw [hself]
      exact Nat.min_eq_left hle
    rw [Capture.body, hoffset, hbytes, Nat.add_comm, List.drop_succ_cons, List.drop_left]
  subst hbody
  -- The two extents behind the marker are the descriptor that was read and the body.
  rw [hbytes] at hextent
  obtain ⟨inner, front, back, hmax, hsplit, hfront, hback⟩ := Extent.described_iff.mp hextent
  obtain ⟨-, hhead⟩ := Extent.of_descriptor (hraw bounds) inner
  obtain rfl := hhead.unique hfront hsplit
  rw [← List.append_cancel_left hsplit] at hback
  exact ⟨head, raw, inner, hbytes, hraw, hd, hmax, hback⟩

/-- A described value can be kept under its descriptor, with the body behind that. -/
theorem kept_of_described {raw : RawDescriptor} {body bytes : Bytes}
    (h : Described raw body bytes) {inner : Nat} (hbody : Extent inner body)
    (hroom : inner < bounds.maxDepth) :
    kept raw.descriptor bounds 1 bytes
      (.captured (.of raw.descriptor bytes (bytes.length - body.length))) := by
  have hextent : Extent bounds.maxDepth bytes := (h.extent hbody).mono hroom
  obtain ⟨descriptor, rfl, hdescriptor⟩ := h
  refine ⟨rfl, hextent, descriptor, raw, body, rfl,
    fun _ => descriptor_written_iff.mpr ⟨rfl, hdescriptor⟩, rfl, ?_⟩
  rw [List.length_cons, List.length_append, ← Nat.add_right_comm, Nat.add_sub_cancel, Nat.add_comm]

theorem kept_mono {bounds' : Limits} (hle : bounds.maxDepth ≤ bounds'.maxDepth)
    (h : kept p.descriptor bounds n p.bytes (.captured p)) :
    kept p.descriptor bounds' n p.bytes (.captured p) :=
  ⟨h.1, h.2.1.mono hle, h.2.2⟩

end Grammar

namespace Capture

/-- A capture that is told from its own bytes. -/
structure Stable (registry : Registry) (limits : Limits) (p : Capture) : Prop where
  /-- The descriptor is the one in front of the bytes. -/
  peekDescriptor_eq : ∀ limits', peekDescriptor (Cursor.start p.bytes limits') =
    .ok (some p.descriptor) (Cursor.start p.bytes limits')
  /-- The body is what stands behind the marker and the descriptor, and it is one value. -/
  exists_described : ∃ raw, Described raw p.body p.bytes ∧ raw.descriptor = p.descriptor
  body_ne_nil : p.body ≠ []
  body_complete : Complete limits p.body
  /-- As long as unknown composites are kept, the bytes are captured again, all of them. -/
  decodeSlot_eq : ∃ left, (registry.withPolicy .captureAll).decodeSlot
    (Cursor.start p.bytes limits) = .ok (.captured p) left ∧ left.position = p.bytes.length

variable {registry : Registry} {limits bounds : Limits} {p : Capture}

theorem stable_of_kept (hregistry : registry.Declared)
    (hunknown : registry.resolve p.descriptor = none)
    (hkept : Grammar.kept p.descriptor bounds 1 p.bytes (.captured p))
    (hle : bounds.maxDepth ≤ limits.maxDepth) : p.Stable registry limits := by
  obtain ⟨head, raw, inner, hbytes, hraw, hd, hmax, hbody⟩ := Grammar.kept_body hkept
  have hheaded : Headed p.descriptor p.bytes := ⟨head, raw, p.body, hbytes, hraw, hd⟩
  have hstart := before_start p.bytes
  refine ⟨fun limits' => ?_, ?_, hbody.ne_nil, ?_, ?_⟩
  · exact peekDescriptor_eq_ok (hstart limits').coherent ((hstart limits').offers 1) hheaded
  · exact ⟨raw, ⟨head, hbytes, (Grammar.descriptor_written_iff.mp (hraw bounds)).2⟩, hd⟩
  · exact complete_iff.mpr (hbody.mono (by omega))
  · have hkeeping : (registry.withPolicy .captureAll).Declared := hregistry.withSettings _
    have hcapture : UnknownPolicy.captureAll.actionFor
        (Cursor.start p.bytes limits).atRootSlot = .capture := ite_self _
    have hkept' := Grammar.kept_mono hle hkept
    rw [← (hstart limits).allowance_eq] at hkept'
    obtain ⟨left, hdecode, hpasses⟩ :=
      Registry.exists_decodeSlot_of_kept hkeeping (hstart limits).coherent hunknown hcapture hkept'
        ((hstart limits).offers 1)
    refine ⟨left, hdecode, ?_⟩
    rw [hpasses.2, past_position]
    exact Nat.zero_add _

end Capture

/-- **A slot is captured as it stands, and for good.**  The bytes that are captured are the span
that was read, and everything else about the capture can be told from them. -/
theorem Registry.decodeSlot_captured {registry : Registry} (hregistry : registry.Declared)
    {bytes : Bytes} {limits : Limits} {c after : Cursor} (hc : Reachable bytes limits c)
    {p : Capture} (h : registry.decodeSlot c = .ok (.captured p) after) :
    c.position ≤ after.position ∧ after.position ≤ bytes.length ∧
      p.bytes = (bytes.drop c.position).take (after.position - c.position) ∧
        p.Stable registry limits := by
  have hcoherent := hc.coherent
  obtain ⟨n, bs, hslot, hpasses⟩ :=
    (readsAt_slot hregistry _ hcoherent (Nat.lt_succ_self _)).sound h
  obtain ⟨hunknown, hkept⟩ := Grammar.kept_of_slot_captured hslot
  obtain ⟨rfl, rfl, -⟩ := Grammar.kept_captured hkept
  have hposition : after.position = c.position + p.bytes.length := by
    rw [hpasses.2, past_position]
  have hfits := hpasses.1.fits
  have hbound := hcoherent.position_add_available
  have hsize := hcoherent.bound_le_size
  rw [hc.size_eq] at hsize
  refine ⟨by omega, by omega, ?_, ?_⟩
  · rw [hposition, Nat.add_sub_cancel_left, ← hc.unread_eq]
    exact hpasses.1.take_eq.symm
  · refine Capture.stable_of_kept hregistry hunknown hkept ?_
    rw [← hc.limits_eq]
    exact Nat.sub_le _ _

/-- A described value under a descriptor without a constructor is captured, if unknown composites
are. -/
theorem Registry.exists_decodeSlot_of_described {registry : Registry}
    (hregistry : registry.Declared) {c : Cursor} (hc : c.Coherent) {raw : RawDescriptor}
    {body bytes : Bytes} (h : Described raw body bytes) {inner : Nat} (hbody : Extent inner body)
    (hroom : inner < c.allowance.maxDepth) (hresolve : registry.resolve raw.descriptor = none)
    (haction : registry.settings.unknownTypes.actionFor c.atRootSlot = .capture)
    (hoffers : c.Offers 1 bytes) : ∃ after, c.Passes 1 bytes after ∧ registry.decodeSlot c =
      .ok (.captured (.of raw.descriptor bytes (bytes.length - body.length))) after := by
  obtain ⟨after, hdecode, hpasses⟩ :=
    exists_decodeSlot_of_kept (p := .of raw.descriptor bytes (bytes.length - body.length)) hregistry
      hc hresolve haction (Grammar.kept_of_described h hbody hroom) hoffers
  exact ⟨after, hpasses, hdecode⟩

/-- A list of two elements, the second a described null under a symbol. -/
private def symbolInList : Bytes := [0xc0, 0x07, 0x02, 0x40, 0x00, 0xa3, 0x01, 0x71, 0x40]

/-- The cursor in front of the second element. -/
private def atSymbol : Cursor :=
  ⟨[0x00, 0xa3, 0x01, 0x71, 0x40], 4, 9, [⟨.list, 0, some 9, 2, 1⟩], ⟨2, 2⟩, none, []⟩

theorem Registry.symbol_in_list_captured : ∃ p after,
    numberedDurations.decodeSlot atSymbol = .ok (.captured p) after ∧
      p.descriptor = .symbol "q" ∧ p.body = [0x40] ∧
        p.bytes = (symbolInList.drop 4).take (after.position - 4) ∧
          p.Stable numberedDurations ⟨2, 2⟩ := by
  have hreachable : Reachable symbolInList ⟨2, 2⟩ atSymbol := by
    have hsteps : Cursor.after (numberedDurations.runStep (.read .null))
        (Cursor.after (numberedDurations.runStep .enterList)
          (Cursor.start symbolInList ⟨2, 2⟩)) = atSymbol := by
      rfl
    rw [← hsteps]
    exact .step _ _ (.step _ _ .start)
  have hsymbol : Described (.symbol "q") [0x40] [0x00, 0xa3, 0x01, 0x71, 0x40] :=
    ⟨[0xa3, 0x01, 0x71], rfl, .symbol ⟨(0xa3, 1), by decide, _, rfl, [0x01], rfl, rfl, by decide⟩⟩
  have hnull : Payload FormatCode.null.category [] [] := ⟨rfl, rfl⟩
  have hunknown : numberedDurations.resolve (RawDescriptor.symbol "q").descriptor = none := by
    decide
  have hoffers : atSymbol.Offers 1 [0x00, 0xa3, 0x01, 0x71, 0x40] := by
    refine ⟨by decide, by decide, ?_⟩
    rintro _ _ ⟨⟩
    decide
  obtain ⟨after, -, hdecode⟩ := exists_decodeSlot_of_described numberedDurations_declared
    hreachable.coherent hsymbol (.sized (by decide) hnull) Nat.one_pos hunknown rfl hoffers
  obtain ⟨-, -, hbytes, hstable⟩ := decodeSlot_captured numberedDurations_declared hreachable hdecode
  exact ⟨_, _, hdecode, rfl, rfl, hbytes, hstable⟩

end AmqpEnvelope
