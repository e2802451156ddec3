import AmqpEnvelope.Proofs.Decode.Skipping
import AmqpEnvelope.Proofs.Written.Scalar

/-!
# Readers of primitive values

At a cursor where another element may be claimed, the reader of a primitive type accepts exactly
what is written as a value of the type and lies before the innermost declared end, and answers what
it stands for (`read_eq_ok_iff`).  As the first byte belongs to one type only, at most one of the
readers succeeds.

The place that is left is the one behind the value, which is where skipping ends.
-/

namespace AmqpEnvelope

namespace Cursor

open Written

/-- Another element may be claimed: the innermost frame has one left, or there is no frame. -/
def Spare (c : Cursor) : Prop :=
  ∀ frame outer, c.frames = frame :: outer → frame.consumed < frame.count

/-- The input goes on with these bytes, and they end before the innermost declared end. -/
def Faces (bytes : Bytes) (c : Cursor) (front : Bytes) : Prop :=
  front <+: bytes.drop c.position ∧ c.position + front.length ≤ c.bound

variable {bytes : Bytes} {limits : Limits} {c : Cursor} {front : Bytes} {p : Primitive}

theorem Reachable.offers_iff (hc : Reachable bytes limits c) (hspare : c.Spare) :
    c.Offers 1 front ↔ Faces bytes c front := by
  have hposition := hc.coherent.position_le_bound
  constructor
  · intro h
    have hfits := h.fits
    simp only [available] at hfits
    exact ⟨hc.unread_eq ▸ h.front, by omega⟩
  · rintro ⟨hfront, hbound⟩
    refine ⟨?_, hc.unread_eq ▸ hfront, fun frame outer hframes => hspare frame outer hframes⟩
    simp only [available]
    omega

/-- **What is read.**  A value is read exactly where it is written, and the cursor moves behind it. -/
theorem Reachable.read_eq_ok_iff (hc : Reachable bytes limits c) (hspare : c.Spare)
    {value : p.Carrier} {after : Cursor} :
    read p c = .ok value after ↔
      ∃ front, ScalarOf p value front ∧ Faces bytes c front ∧ after = c.past 1 front c.entered := by
  have hreads := readsAt_read hc.coherent p
  constructor
  · intro h
    obtain ⟨n, front, hvalue, hpasses⟩ := hreads.sound h
    obtain ⟨rfl, hscalar⟩ := scalar_written_iff.mp hvalue
    refine ⟨front, hscalar, (hc.offers_iff hspare).mp hpasses.1, ?_⟩
    rw [← read_entered h]
    exact hpasses.2
  · rintro ⟨front, hscalar, hfaces, rfl⟩
    obtain ⟨after, h, hpasses⟩ := hreads.complete (Limits.le_refl _)
      (scalar_written_iff.mpr ⟨rfl, hscalar⟩) ((hc.offers_iff hspare).mpr hfaces)
    rw [h, hpasses.2, read_entered h]

/-- Behind a code stands one payload. -/
theorem Faces.unique {format format' : FormatCode} {back back' content content' : Bytes}
    (h : Faces bytes c (format.toByte :: back)) (hpayload : Payload format.category back content)
    (h' : Faces bytes c (format'.toByte :: back'))
    (hpayload' : Payload format'.category back' content') :
    format = format' ∧ back = back' ∧ content = content' := by
  obtain ⟨rest, hrest⟩ := h.1
  obtain ⟨rest', hrest'⟩ := h'.1
  obtain ⟨hbyte, hback⟩ := List.cons.inj (hrest.trans hrest'.symm)
  obtain rfl := FormatCode.toByte_inj hbyte
  obtain rfl := hpayload.unique hpayload' hback
  exact ⟨rfl, rfl, hpayload.content_unique hpayload'⟩

/-- What the readers of the primitive types do at a cursor. -/
structure ReadsScalars (bytes : Bytes) (c : Cursor) : Prop where
  /-- A reader succeeds if and only if the next byte is a code of its type, the payload that the
  code calls for ends before the innermost declared end, and the payload stands for a value. -/
  succeeds_iff : ∀ p, (∃ value after, read p c = .ok value after) ↔
    ∃ format ∈ codes p, ∃ back content, Faces bytes c (format.toByte :: back) ∧
      Payload format.category back content ∧ Admits p format content
  /-- The answer is what the payload stands for, and has the extended payload in full width.  The
  cursor moves as far as it would if the value was skipped, and one element is claimed. -/
  answer : ∀ {p} {value : p.Carrier} {after}, read p c = .ok value after →
    ∀ {format back content}, format ∈ codes p → Faces bytes c (format.toByte :: back) →
      Payload format.category back content →
        Denotes p format content value ∧ fullContent p value = extended p format content ∧
          after.position = c.position + (format.toByte :: back).length ∧
            skip c = .ok () after ∧ after.frames = claimAll 1 c.frames
  /-- No two readers succeed. -/
  exclusive : ∀ {p q} {value : p.Carrier} {other : q.Carrier} {after after'},
    read p c = .ok value after → read q c = .ok other after' → p = q
  /-- Every value that can be written is read from its form of full width. -/
  full_width : ∀ {p} {value : p.Carrier}, Storable p value → Faces bytes c (fullForm p value) →
    ∃ after, read p c = .ok value after
  /-- Whatever form a value is read from, it can be written, and wherever its form of full width
  stands, it is read again. -/
  agrees : ∀ {p} {value : p.Carrier} {after}, read p c = .ok value after →
    Storable p value ∧ ∀ {bytes' limits' c'}, Reachable bytes' limits' c' → c'.Spare →
      Faces bytes' c' (fullForm p value) → ∃ after', read p c' = .ok value after'

theorem Reachable.read_fullForm (hc : Reachable bytes limits c) (hspare : c.Spare)
    {value : p.Carrier} (hvalue : Storable p value) (hfaces : Faces bytes c (fullForm p value)) :
    ∃ after, read p c = .ok value after :=
  ⟨_, (hc.read_eq_ok_iff hspare).mpr ⟨_, fullForm_scalar hvalue, hfaces, rfl⟩⟩

theorem Reachable.read_succeeds_iff (hc : Reachable bytes limits c) (hspare : c.Spare) :
    (∃ value after, read p c = .ok value after) ↔
      ∃ format ∈ codes p, ∃ back content, Faces bytes c (format.toByte :: back) ∧
        Payload format.category back content ∧ Admits p format content := by
  constructor
  · rintro ⟨value, after, h⟩
    obtain ⟨_, ⟨format, hcode, back, content, rfl, hpayload, hdenotes⟩, hfaces, -⟩ :=
      (hc.read_eq_ok_iff hspare).mp h
    exact ⟨format, hcode, back, content, hfaces, hpayload,
      (exists_denotes_iff hcode hpayload).mp ⟨value, hdenotes⟩⟩
  · rintro ⟨format, hcode, back, content, hfaces, hpayload, hadmits⟩
    obtain ⟨value, hdenotes⟩ := (exists_denotes_iff hcode hpayload).mpr hadmits
    exact ⟨value, _, (hc.read_eq_ok_iff hspare).mpr
      ⟨_, ⟨format, hcode, back, content, rfl, hpayload, hdenotes⟩, hfaces, rfl⟩⟩

/-- Skipping ends where reading does. -/
theorem Reachable.skip_of_read (hc : Reachable bytes limits c) {value : p.Carrier}
    {after : Cursor} (h : read p c = .ok value after) : skip c = .ok () after := by
  obtain ⟨front, skipped, -, hpasses, hskip, hpasses'⟩ :=
    (Spans.scalar p).skip_of_ok (readsAt_read hc.coherent p) hc.coherent h
  have hsame : skipped = after := by
    rw [hpasses'.2, hpasses.2, skip_entered hskip, read_entered h]
  rw [hskip, hsame]

/-- **The readers divide the codes among themselves and read exactly**, at every reachable cursor
where another element may be claimed. -/
theorem Reachable.readsScalars (hc : Reachable bytes limits c) (hspare : c.Spare) :
    ReadsScalars bytes c where
  succeeds_iff _ := hc.read_succeeds_iff hspare
  answer := by
    intro p value after h format back content hcode hfaces hpayload
    obtain ⟨_, ⟨format', -, back', content', rfl, hpayload', hdenotes⟩, hfaces', heq⟩ :=
      (hc.read_eq_ok_iff hspare).mp h
    obtain ⟨rfl, rfl, rfl⟩ := hfaces.unique hpayload hfaces' hpayload'
    refine ⟨hdenotes, fullContent_eq_extended hcode hpayload hdenotes, ?_, hc.skip_of_read h, ?_⟩
    · rw [heq, past_position]
    · rw [heq, past_frames]
  exclusive := by
    intro p q value other after after' hp hq
    obtain ⟨_, ⟨format, hcode, back, content, rfl, hpayload, -⟩, hfaces, -⟩ :=
      (hc.read_eq_ok_iff hspare).mp hp
    obtain ⟨_, ⟨format', hcode', back', content', rfl, hpayload', -⟩, hfaces', -⟩ :=
      (hc.read_eq_ok_iff hspare).mp hq
    obtain ⟨rfl, -, -⟩ := hfaces.unique hpayload hfaces' hpayload'
    exact eq_of_mem_codes hcode hcode'
  full_width := hc.read_fullForm hspare
  agrees := by
    intro p value after h
    obtain ⟨_, ⟨format, hcode, back, content, rfl, hpayload, hdenotes⟩, -⟩ :=
      (hc.read_eq_ok_iff hspare).mp h
    have hstorable := storable_of_denotes hcode hpayload hdenotes
    exact ⟨hstorable, fun hc' hspare' hfaces => hc'.read_fullForm hspare' hstorable hfaces⟩

/-- In a list of one int, which is -1 in the compact form. -/
private def onNegative : Cursor :=
  after ((Registry.empty Settings.standard).runStep .enterList)
    (Cursor.start [0xc0, 0x03, 0x01, 0x54, 0xff] ⟨4, 10⟩)

theorem readsScalars_on_negative :
    (∃ left, read .int onNegative = .ok (-1) left) ∧
      ReadsScalars [0xc0, 0x03, 0x01, 0x54, 0xff] onNegative := by
  have hc : Reachable [0xc0, 0x03, 0x01, 0x54, 0xff] ⟨4, 10⟩ onNegative := .step _ .enterList .start
  have hframes : onNegative.frames = [⟨.list, 0, some 5, 1, 0⟩] := by
    rfl
  have hspare : onNegative.Spare := by
    intro frame outer hcons
    rw [hframes] at hcons
    cases hcons
    decide
  exact ⟨⟨_, rfl⟩, hc.readsScalars hspare⟩

end Cursor

end AmqpEnvelope
