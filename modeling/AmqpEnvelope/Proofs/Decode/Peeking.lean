import AmqpEnvelope.Proofs.Decode.Reachable
import AmqpEnvelope.Proofs.Grammar.Slot
import AmqpEnvelope.Proofs.Written.Form

/-!
# What a peek foretells

Before a composite is decoded, its descriptor is looked at from in front of the marker.  The
look claims no element and opens no frame, so it may succeed where the composite itself cannot
be begun: in a frame whose elements are used up, and at the bound on open frames.  Everywhere
else it sees a descriptor exactly if beginning the composite reads that descriptor
(`Cursor.Reachable.peek_tells`).

Both are compared with what stands in the input (`Announces`): the look with nothing else, and
the beginning with that and the two reasons for which it may be `HeldBack`.  Decoding under a
given descriptor looks first, and goes no further if something else stands there.
-/

namespace AmqpEnvelope

namespace Cursor

open Written

variable {bytes : Bytes} {limits : Limits} {c : Cursor} {d : Descriptor} {raw : RawDescriptor}
  {head : Bytes}

/-! ## What stands in front -/

/-- Behind the cursor and before the bound stand a marker and a descriptor in one of its forms,
which stands for the given key. -/
def Announces (bytes : Bytes) (c : Cursor) (d : Descriptor) : Prop :=
  ∃ raw head, DescriptorOf raw head ∧ raw.descriptor = d ∧
    c.position + (1 + head.length) ≤ c.bound ∧
      (bytes.drop c.position).take (1 + head.length) = 0x00 :: head

/-- The reasons for which a described value that stands in front cannot be begun. -/
inductive HeldBack (c : Cursor) : DecodeError → Prop
  /-- The innermost frame has no element left for it. -/
  | exhausted (frame : Frame) (outer : List Frame) (hframes : c.frames = frame :: outer)
      (hfull : frame.consumed = frame.count) :
      HeldBack c (.mismatch (.exhausted frame.kind "described type" frame.count) c.position)
  /-- As many frames are open as may be. -/
  | depth (hdeep : c.depth = c.limits.maxDepth) :
      HeldBack c (.limitExceeded .nestingDepth (c.depth + 1) c.limits.maxDepth c.position)

/-- What is announced is what the cursor offers, as a marker and a descriptor of the grammar. -/
theorem announces_iff_offers (hc : Reachable bytes limits c) : Announces bytes c d ↔
    ∃ raw head, Grammar.descriptor c.allowance 0 head raw ∧ raw.descriptor = d ∧
      c.Offers 0 (FormatCode.described.toByte :: head) := by
  have hcoherent := hc.coherent
  have hbound := hcoherent.position_le_bound
  unfold Announces
  rw [← hc.unread_eq]
  constructor
  · rintro ⟨raw, head, hraw, hd, hend, htake⟩
    refine ⟨raw, head, Grammar.descriptor_written_iff.mpr ⟨rfl, hraw⟩, hd, ?_, ?_,
      hcoherent.innermost_consumed_le⟩
    · rw [List.length_cons, available]
      omega
    · exact htake ▸ List.take_prefix _ _
  · rintro ⟨raw, head, hraw, hd, hoffers⟩
    have hfits := hoffers.fits
    have htake := hoffers.take_eq
    rw [List.length_cons, Nat.add_comm] at hfits htake
    refine ⟨raw, head, (Grammar.descriptor_written_iff.mp hraw).2, hd, ?_, htake⟩
    unfold available at hfits
    omega

/-! ## The look -/

theorem after_peekDescriptor (c : Cursor) : after peekDescriptor c = c := by
  unfold after peekDescriptor
  by_cases hmarker : c.peekByte? = some FormatCode.described.toByte
  · simp only [hmarker, if_true]
    cases rawDescriptor (c.advance 1) <;> rfl
  · simp only [hmarker, if_false]

/-- A descriptor that is seen has been read behind the marker. -/
theorem exists_raw_of_peekDescriptor (h : peekDescriptor c = .ok (some d) c) :
    ∃ raw c₁, rawDescriptor (c.advance 1) = .ok raw c₁ ∧ raw.descriptor = d := by
  rw [peekDescriptor, if_pos (marker_of_peekDescriptor h)] at h
  cases hraw : rawDescriptor (c.advance 1) with
  | ok raw c₁ =>
      rw [hraw] at h
      cases h
      exact ⟨raw, c₁, rfl, rfl⟩
  | error e c₁ =>
      rw [hraw] at h
      cases h

/-- The marker is passed without a claim. -/
theorem passes_marker (hc : c.Coherent) (h : c.peekByte? = some FormatCode.described.toByte) :
    c.Passes 0 [FormatCode.described.toByte] (c.advance 1) := by
  obtain ⟨hfits, hhead⟩ := available_pos_of_peekByte? h
  have hformat : formatHere "described type" c = .ok (.described, c.position) (c.advance 1) := by
    refine formatHere_eq_ok_iff.mpr ⟨hfits, ?_, rfl, rfl⟩
    rw [List.headD_eq_head?_getD, List.head?_take, if_neg Nat.one_ne_zero, hhead]
    rfl
  obtain ⟨_, _, ⟨rfl, rfl⟩, hpasses⟩ :=
    (readsAt_formatHere hc "described type").sound (map_eq_ok_iff.mpr ⟨_, hformat, rfl⟩)
  exact hpasses

/-- The look sees exactly the descriptor that is announced. -/
theorem peekDescriptor_eq_ok_iff (hc : Reachable bytes limits c) :
    peekDescriptor c = .ok (some d) c ↔ Announces bytes c d := by
  have hcoherent := hc.coherent
  rw [announces_iff_offers hc]
  constructor
  · intro h
    obtain ⟨raw, c₁, hraw, hd⟩ := exists_raw_of_peekDescriptor h
    have hmarker := passes_marker hcoherent (marker_of_peekDescriptor h)
    obtain ⟨n, head, hg, hpasses⟩ :=
      (readsAt_rawDescriptor (hmarker.coherent hcoherent)).sound hraw
    obtain ⟨rfl, -⟩ := Extent.of_descriptor hg 0
    rw [hmarker.allowance_eq] at hg
    exact ⟨raw, head, hg, hd, (hmarker.trans hpasses).1⟩
  · rintro ⟨raw, head, hraw, hd, hoffers⟩
    refine peekDescriptor_eq_ok hcoherent hoffers ⟨head, raw, [], ?_, ?_, hd⟩
    · rw [List.append_nil]
    · exact Grammar.descriptor_of_bounds hraw

/-! ## The beginning -/

/-- A described value that is begun was announced. -/
theorem announces_of_beginDescribed (hc : Reachable bytes limits c) {opening : Opening}
    {c' : Cursor} (h : beginDescribed c = .ok opening c') :
    Announces bytes c opening.descriptor := by
  obtain ⟨_, _, raw, rfl, ⟨rfl, head, rfl, hraw⟩, -, hopens⟩ :=
    (enters_beginDescribed hc.coherent).sound h
  have hoffers : c.Offers 0 (FormatCode.described.toByte :: head) :=
    ⟨hopens.offers.fits, hopens.offers.front, hc.coherent.innermost_consumed_le⟩
  exact (announces_iff_offers hc).mpr ⟨raw, head, hraw, rfl, hoffers⟩

theorem beginDescribed_of_full {frame : Frame} {outer : List Frame}
    (hframes : c.frames = frame :: outer) (hfull : frame.count ≤ frame.consumed) :
    beginDescribed c =
      .error (.mismatch (.exhausted frame.kind "described type" frame.count) c.position) c := by
  simp only [beginDescribed, beginValue, bind, EStateM.bind, claim_of_full hframes hfull]

/-- Where an element is left, only the bound on frames keeps what is offered from being begun. -/
theorem beginDescribed_of_offers (hc : c.Coherent)
    (hraw : Grammar.descriptor c.allowance 0 head raw)
    (hoffers : c.Offers 1 (FormatCode.described.toByte :: head)) :
    (c.depth = c.limits.maxDepth ∧ ∃ c', beginDescribed c =
        .error (.limitExceeded .nestingDepth (c.depth + 1) c.limits.maxDepth c.position) c') ∨
      ∃ c', beginDescribed c = .ok ⟨raw, c.position⟩ c' := by
  have hmarker : c.Offers 1 ([FormatCode.described.toByte] ++ head) := hoffers
  obtain ⟨c₁, hviewed, hpasses⟩ := (readsAt_beginValue hc "described type").complete
    (Limits.le_refl _) (Grammar.lead_iff.mpr ⟨rfl, rfl⟩) hmarker.of_append
  obtain ⟨⟨format, offset⟩, hbegin, hformat⟩ := map_eq_ok_iff.mp hviewed
  obtain rfl : format = .described := hformat
  obtain rfl := offset_of_beginValue hbegin
  obtain ⟨c₂, hread, hpasses'⟩ := (readsAt_rawDescriptor (hpasses.coherent hc)).complete
    (hpasses.allowance_eq ▸ Limits.le_refl _) hraw (hpasses.offers_rest hmarker)
  have hpassed := hpasses.trans hpasses'
  have hdepth : c₂.depth = c.depth := by rw [hpassed.2, past_depth]
  have hlimits : c₂.limits = c.limits := by rw [hpassed.2, past_limits]
  have hbegun : beginDescribed c =
      (push .described c.position none 1 >>= fun _ => pure ⟨raw, c.position⟩) c₂ := by
    rw [beginDescribed, bind_of_ok hbegin]
    simp only [if_true]
    rw [bind_of_ok hread]
  rw [hbegun]
  simp only [bind, EStateM.bind, push, hdepth, hlimits]
  by_cases hdeep : c.limits.maxDepth ≤ c.depth
  · rw [if_pos hdeep]
    exact .inl ⟨Nat.le_antisymm hc.depth_le hdeep, c₂, rfl⟩
  · rw [if_neg hdeep]
    exact .inr ⟨_, rfl⟩

/-- What is announced is begun, or held back. -/
theorem Announces.begun_or_heldBack (hc : Reachable bytes limits c) (h : Announces bytes c d) :
    (∃ opening c', beginDescribed c = .ok opening c' ∧ opening.descriptor = d) ∨
      ∃ e c', beginDescribed c = .error e c' ∧ HeldBack c e := by
  obtain ⟨raw, head, hraw, rfl, hoffers⟩ := (announces_iff_offers hc).mp h
  have hspare_or_full : c.Offers 1 (FormatCode.described.toByte :: head) ∨
      ∃ frame outer, c.frames = frame :: outer ∧ frame.consumed = frame.count := by
    cases hframes : c.frames with
    | nil => exact .inl ⟨hoffers.fits, hoffers.front, by simp [hframes]⟩
    | cons frame outer =>
        rcases Nat.lt_or_eq_of_le (hoffers.spare frame outer hframes) with hspare | hfull
        · refine .inl ⟨hoffers.fits, hoffers.front, fun frame' outer' hframes' => ?_⟩
          rw [hframes] at hframes'
          cases hframes'
          exact hspare
        · exact .inr ⟨frame, outer, rfl, hfull⟩
  rcases hspare_or_full with hoffers | ⟨frame, outer, hframes, hfull⟩
  · rcases beginDescribed_of_offers hc.coherent hraw hoffers with ⟨hdeep, c', h⟩ | ⟨c', h⟩
    · exact .inr ⟨_, c', h, .depth hdeep⟩
    · exact .inl ⟨_, c', h, rfl⟩
  · exact .inr ⟨_, c, beginDescribed_of_full hframes (Nat.le_of_eq hfull.symm),
      .exhausted frame outer hframes hfull⟩

end Cursor

/-! ## Decoding under a given descriptor -/

open Cursor

namespace Decode

variable {resolver : Resolver} {d : Descriptor} {c : Cursor}

/-- In front of the given descriptor, the composite is left to the resolver. -/
theorem checked_of_peekDescriptor (h : peekDescriptor c = .ok (some d) c) :
    checked resolver d c = resolver d c := by
  unfold checked
  dsimp only
  rw [bind_of_ok h]
  simp only [if_true]

/-- In front of anything else, nothing happens but an error. -/
theorem checked_refuses (h : peekDescriptor c ≠ .ok (some d) c) :
    ∃ e, checked resolver d c = .error e c := by
  unfold checked
  dsimp only
  cases hpeek : peekDescriptor c with
  | error e c' =>
      have hstays := after_peekDescriptor c
      simp only [after, hpeek] at hstays
      subst hstays
      exact ⟨e, by simp only [bind, EStateM.bind, hpeek]⟩
  | ok found c' =>
      obtain rfl := peekDescriptor_stays hpeek
      rw [bind_of_ok hpeek]
      cases found with
      | none => exact ⟨_, rfl⟩
      | some d' =>
          have hother : d' ≠ d := fun hsame => h (hsame ▸ hpeek)
          dsimp only
          rw [if_neg hother]
          exact ⟨_, rfl⟩

end Decode

/-! ## The three together -/

/-- The look, the beginning of a described value, and decoding with and without a given
descriptor tell the same of what stands at a cursor. -/
structure PeekTells (registry : Registry) (bytes : Bytes) (c : Cursor) : Prop where
  /-- Looking leaves the cursor as it is. -/
  stays : after peekDescriptor c = c
  /-- A descriptor is seen if the value is begun with it, or held back although it is there. -/
  some_iff : ∀ d, peekDescriptor c = .ok (some d) c ↔
    (∃ opening c', beginDescribed c = .ok opening c' ∧ opening.descriptor = d) ∨
      Announces bytes c d ∧ ∃ e c', beginDescribed c = .error e c' ∧ HeldBack c e
  /-- Under the descriptor that is seen, decoding does what it does without one. -/
  decodeAs_eq : ∀ d, peekDescriptor c = .ok (some d) c →
    registry.decodeAs d c = registry.decodeSlot c
  /-- Under any other it fails, and the cursor is as it was. -/
  decodeAs_refuses : ∀ d, peekDescriptor c ≠ .ok (some d) c →
    ∃ e, registry.decodeAs d c = .error e c

/-- **A peek foretells what is there.**  At every reachable cursor and under every registry, the
descriptor that is seen is the one with which the next value is begun, unless there is no element
or no frame left for it, and it decides whether decoding under a given descriptor goes on as
the slot decoder does or stops without having done anything. -/
theorem Cursor.Reachable.peek_tells {bytes : Bytes} {limits : Limits} {c : Cursor}
    (hc : Reachable bytes limits c) (registry : Registry) : PeekTells registry bytes c where
  stays := after_peekDescriptor c
  some_iff := by
    intro d
    rw [peekDescriptor_eq_ok_iff hc]
    constructor
    · intro h
      exact (h.begun_or_heldBack hc).imp_right fun hheld => ⟨h, hheld⟩
    · rintro (⟨opening, c', hbegin, rfl⟩ | ⟨h, -⟩)
      · exact announces_of_beginDescribed hc hbegin
      · exact h
  decodeAs_eq := fun d h =>
    (Decode.checked_of_peekDescriptor h).trans (slot_of_peekDescriptor h).symm
  decodeAs_refuses := fun _ => Decode.checked_refuses

/-- The spare duration is seen and cannot be begun; asked for under its descriptor it fails as in
a slot, and under another descriptor without a trace. -/
theorem spare_duration_peeked :
    let beforeSpare := inFrontOfSpare Registry.nineSeconds
    peekDescriptor beforeSpare = .ok (some (.code 7)) beforeSpare ∧
      beginDescribed beforeSpare =
        .error (.mismatch (.exhausted .list "described type" 1) 4) beforeSpare ∧
      Registry.numberedDurations.decodeAs (.code 7) beforeSpare =
        Registry.numberedDurations.decodeSlot beforeSpare ∧
      ∃ e, Registry.numberedDurations.decodeAs (.code 8) beforeSpare = .error e beforeSpare := by
  intro beforeSpare
  have hseen : peekDescriptor beforeSpare = .ok (some (.code 7)) beforeSpare := by rfl
  have htells := Cursor.Reachable.peek_tells (reachable_inFrontOfSpare Registry.nineSeconds)
    Registry.numberedDurations (c := beforeSpare)
  refine ⟨hseen, by rfl, htells.decodeAs_eq _ hseen, htells.decodeAs_refuses _ ?_⟩
  rw [hseen]
  exact nofun

end AmqpEnvelope
