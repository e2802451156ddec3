import AmqpEnvelope.Proofs.Grammar.Basic

/-!
# Primitive values and descriptors

A primitive value is one element: a format code of its type, and behind it the payload
that the code calls for.  A descriptor is written like a primitive value and is no
element.  `scalar_iff` and `descriptor_iff` spell both grammars out in bytes.

That these are the grammars of the readers (`readsAt_read`, `readsAt_rawDescriptor`)
rests on one observation about interpretation: the offset that it is given shows up in
its errors only (`Primitive.interpret_ok_offset`).
-/

namespace AmqpEnvelope

open Cursor

namespace Cursor

theorem Passes.coherent {c c' : Cursor} {n : Nat} {bs : Bytes} (h : c.Passes n bs c')
    (hc : c.Coherent) : c'.Coherent := by
  rw [h.2]
  exact hc.past h.1 c'.entered

end Cursor

/-! ## Payloads -/

/-- The bytes behind a format code of this category, and the content in them. -/
def Payload : WidthCategory → (bytes content : Bytes) → Prop
  | .described, bytes, content => bytes = [] ∧ content = []
  | .fixed size, bytes, content => bytes = content ∧ content.length = size
  | .variable width, bytes, content | .compound width, bytes, content
  | .array width, bytes, content =>
      ∃ head, bytes = head ++ content ∧ head.length = width ∧
        BigEndian.toNat head = content.length

namespace Grammar

/-- The content behind a format code of a category. -/
def payload : WidthCategory → Grammar Bytes
  | .described => pure []
  | .fixed size => bytes size
  | .variable width | .compound width | .array width => do
      let length ← number width
      bytes length

private theorem prefixed_iff {width : Nat} {bounds : Limits} {n : Nat} {bs content : Bytes} :
    (number width >>= bytes) bounds n bs content ↔
      n = 0 ∧ ∃ head, bs = head ++ content ∧ head.length = width ∧
        BigEndian.toNat head = content.length := by
  rw [bind_iff]
  constructor
  · rintro ⟨m, k, front, back, length, rfl, rfl, hnumber, rfl, rfl, hlength⟩
    obtain ⟨rfl, hwidth, rfl⟩ := number_iff.mp hnumber
    exact ⟨rfl, front, rfl, hwidth, hlength.symm⟩
  · rintro ⟨rfl, head, rfl, hwidth, hlength⟩
    exact ⟨0, 0, head, content, _, rfl, rfl, number_iff.mpr ⟨rfl, hwidth, rfl⟩, rfl, rfl,
      hlength.symm⟩

theorem payload_iff {category : WidthCategory} {bounds : Limits} {n : Nat}
    {bs content : Bytes} :
    payload category bounds n bs content ↔ n = 0 ∧ Payload category bs content := by
  cases category with
  | described => exact Iff.rfl
  | fixed size => exact Iff.rfl
  | _ width => exact prefixed_iff

/-- The value of a primitive type behind its format code. -/
def body (p : Primitive) (format : FormatCode) : Grammar p.Carrier := do
  let content ← payload format.category
  such fun value => ∃ offset, p.interpret format content offset = .ok value

/-- The format code at the start of an element. -/
def lead : Grammar FormatCode := do
  element
  code

/-- A value of a primitive type. -/
def scalar (p : Primitive) : Grammar p.Carrier := do
  let format ← lead
  if format.primitive? = some p then body p format else fail

/-- A descriptor: a symbol or an unsigned long, which is no element of its own. -/
def descriptor : Grammar RawDescriptor := do
  let format ← code
  if format.primitive? = some .symbol then .symbol <$> body .symbol format
  else if format.primitive? = some .ulong then .code <$> body .ulong format
  else fail

theorem body_iff {p : Primitive} {format : FormatCode} {bounds : Limits} {n : Nat} {bs : Bytes}
    {value : p.Carrier} :
    body p format bounds n bs value ↔ n = 0 ∧ ∃ content offset,
      Payload format.category bs content ∧ p.interpret format content offset = .ok value := by
  rw [body, bind_iff]
  constructor
  · rintro ⟨m, k, front, back, content, rfl, rfl, hgrammar, rfl, rfl, offset, hvalue⟩
    obtain ⟨rfl, hpayload⟩ := payload_iff.mp hgrammar
    rw [List.append_nil]
    exact ⟨rfl, content, offset, hpayload, hvalue⟩
  · rintro ⟨rfl, content, offset, hpayload, hvalue⟩
    exact ⟨0, 0, bs, [], content, rfl, (List.append_nil bs).symm,
      payload_iff.mpr ⟨rfl, hpayload⟩, rfl, rfl, offset, hvalue⟩

theorem lead_iff {bounds : Limits} {n : Nat} {bs : Bytes} {format : FormatCode} :
    lead bounds n bs format ↔ n = 1 ∧ bs = [format.toByte] := by
  rw [lead, bind_iff]
  constructor
  · rintro ⟨m, k, front, back, _, rfl, rfl, ⟨rfl, rfl⟩, rfl, rfl⟩
    exact ⟨rfl, rfl⟩
  · rintro ⟨rfl, rfl⟩
    exact ⟨1, 0, [], _, (), rfl, rfl, ⟨rfl, rfl⟩, rfl, rfl⟩

/-- A primitive value is a format code of its type and a payload with its meaning. -/
theorem scalar_iff {p : Primitive} {bounds : Limits} {n : Nat} {bs : Bytes}
    {value : p.Carrier} :
    scalar p bounds n bs value ↔ n = 1 ∧ ∃ format back content offset,
      bs = format.toByte :: back ∧ format.primitive? = some p ∧
        Payload format.category back content ∧ p.interpret format content offset = .ok value := by
  rw [scalar, bind_iff]
  constructor
  · rintro ⟨m, k, front, back, format, rfl, rfl, hlead, hbody⟩
    obtain ⟨rfl, rfl⟩ := lead_iff.mp hlead
    split at hbody
    next hprimitive =>
      obtain ⟨rfl, content, offset, hpayload, hvalue⟩ := body_iff.mp hbody
      exact ⟨rfl, format, back, content, offset, rfl, hprimitive, hpayload, hvalue⟩
    next => exact hbody.elim
  · rintro ⟨rfl, format, back, content, offset, rfl, hprimitive, hpayload, hvalue⟩
    refine ⟨1, 0, [format.toByte], back, format, rfl, rfl, lead_iff.mpr ⟨rfl, rfl⟩, ?_⟩
    rw [if_pos hprimitive]
    exact body_iff.mpr ⟨rfl, content, offset, hpayload, hvalue⟩

/-- A descriptor is a format code of a symbol or of an unsigned long, and its payload. -/
theorem descriptor_iff {bounds : Limits} {n : Nat} {bs : Bytes} {raw : RawDescriptor} :
    descriptor bounds n bs raw ↔ n = 0 ∧ ∃ format back content offset,
      bs = format.toByte :: back ∧ Payload format.category back content ∧
        ((∃ text, format.primitive? = some .symbol ∧ raw = .symbol text ∧
            Primitive.symbol.interpret format content offset = .ok text) ∨
          ∃ value, format.primitive? = some .ulong ∧ raw = .code value ∧
            Primitive.ulong.interpret format content offset = .ok value) := by
  rw [descriptor, bind_iff]
  constructor
  · rintro ⟨m, k, front, back, format, rfl, rfl, ⟨rfl, rfl⟩, hbody⟩
    split at hbody
    next hprimitive =>
      obtain ⟨text, hsymbol, rfl⟩ := map_iff.mp hbody
      obtain ⟨rfl, content, offset, hpayload, hvalue⟩ := body_iff.mp hsymbol
      exact ⟨rfl, format, back, content, offset, rfl, hpayload,
        .inl ⟨text, hprimitive, rfl, hvalue⟩⟩
    next =>
      split at hbody
      next hprimitive =>
        obtain ⟨value, hcode, rfl⟩ := map_iff.mp hbody
        obtain ⟨rfl, content, offset, hpayload, hvalue⟩ := body_iff.mp hcode
        exact ⟨rfl, format, back, content, offset, rfl, hpayload,
          .inr ⟨value, hprimitive, rfl, hvalue⟩⟩
      next => exact hbody.elim
  · rintro ⟨rfl, format, back, content, offset, rfl, hpayload, hraw⟩
    refine ⟨0, 0, [format.toByte], back, format, rfl, rfl, ⟨rfl, rfl⟩, ?_⟩
    rcases hraw with ⟨text, hprimitive, rfl, hvalue⟩ | ⟨value, hprimitive, rfl, hvalue⟩
    · rw [if_pos hprimitive]
      exact map_iff.mpr ⟨text, body_iff.mpr ⟨rfl, content, offset, hpayload, hvalue⟩, rfl⟩
    · rw [if_neg (by simp [hprimitive]), if_pos hprimitive]
      exact map_iff.mpr ⟨value, body_iff.mpr ⟨rfl, content, offset, hpayload, hvalue⟩, rfl⟩

end Grammar

/-- What a payload means does not depend on where it stands; only an error names the
place. -/
theorem Primitive.interpret_ok_offset {p : Primitive} {format : FormatCode} {content : Bytes}
    {offset : Nat} {value : p.Carrier} (h : p.interpret format content offset = .ok value)
    (offset' : Nat) : p.interpret format content offset' = .ok value := by
  cases p with
  | boolean =>
      simp only [interpret] at h ⊢
      repeat' split at h
      all_goals first
        | exact h
        | simp_all
  | char =>
      simp only [interpret] at h ⊢
      split at h
      · exact h
      · cases h
  | string =>
      simp only [interpret, utf8] at h ⊢
      split at h
      · exact h
      · cases h
  | symbol =>
      simp only [interpret, utf8] at h ⊢
      split at h
      · exact h
      · cases h
  | _ => exact h

/-! ## Readers of primitive values -/

section

variable {c : Cursor}

theorem readsAt_formatHere (hc : c.Coherent) (what : String) :
    ReadsAt c (Prod.fst <$> formatHere what) Grammar.code where
  sound h := by
    obtain ⟨⟨format, offset⟩, hok, rfl⟩ := map_eq_ok_iff.mp h
    obtain ⟨hfits, hformat, rfl, rfl⟩ := formatHere_eq_ok_iff.mp hok
    have hlength := Nat.le_trans hfits hc.available_le_length
    cases hunread : c.unread with
    | nil => simp [hunread] at hlength
    | cons byte rest =>
        rw [hunread] at hformat
        obtain rfl : byte = format.toByte := FormatCode.toByte_of_ofByte? hformat
        refine ⟨0, [format.toByte], ⟨rfl, rfl⟩, ⟨hfits, ?_, ?_⟩, ?_⟩
        · rw [hunread]
          exact ⟨rest, rfl⟩
        · exact hc.innermost_consumed_le
        · simp [past, advance]
  complete := by
    rintro bounds _ _ format - ⟨rfl, rfl⟩ hoffers
    refine ⟨c.past 0 [format.toByte] c.entered, map_eq_ok_iff.mpr ⟨(format, c.position), ?_, rfl⟩,
      hoffers.passes c.entered⟩
    refine formatHere_eq_ok_iff.mpr ⟨hoffers.fits, ?_, rfl, ?_⟩
    · rw [show c.unread.take 1 = [format.toByte] from hoffers.take_eq]
      exact FormatCode.ofByte?_toByte format
    · simp [past, advance]

theorem readsAt_payload (hc : c.Coherent) (category : WidthCategory) (what : String) :
    ReadsAt c (Cursor.payload category what) (Grammar.payload category) := by
  cases category with
  | described => exact .pure hc []
  | fixed size => exact readsAt_take hc size what
  | _ width =>
      exact (readsAt_number hc width what).bind fun length _ _ _ hpasses =>
        readsAt_take (hpasses.coherent hc) length what

theorem readsAt_primitiveBody (hc : c.Coherent) (p : Primitive) (format : FormatCode)
    (offset : Nat) : ReadsAt c (primitiveBody p format offset) (Grammar.body p format) := by
  refine (readsAt_payload hc _ _).bind fun content _ _ c₁ hpasses => ?_
  have hc₁ := hpasses.coherent hc
  cases h : p.interpret format content offset with
  | ok value =>
      refine ⟨fun hok => ?_, ?_⟩
      · obtain ⟨n, bs, ⟨rfl, rfl, rfl⟩, hpasses'⟩ := (ReadsAt.pure hc₁ value).sound hok
        exact ⟨0, [], ⟨rfl, rfl, offset, h⟩, hpasses'⟩
      · rintro bounds n bs value' hbounds ⟨rfl, rfl, offset', h'⟩ hoffers
        rw [Primitive.interpret_ok_offset h' offset] at h
        cases h
        exact (ReadsAt.pure hc₁ value).complete hbounds ⟨rfl, rfl, rfl⟩ hoffers
  | error e =>
      refine ⟨fun hok => absurd hok throw_ne_ok, ?_⟩
      rintro bounds n bs value' - ⟨-, -, offset', h'⟩ -
      rw [Primitive.interpret_ok_offset h' offset] at h
      cases h

/-- Claiming an element and reading its format code. -/
theorem readsAt_beginValue (hc : c.Coherent) (what : String) :
    ReadsAt c (Prod.fst <$> beginValue what) Grammar.lead := by
  have heq : Prod.fst <$> beginValue what =
      (do claim what; Prod.fst <$> formatHere what) := by
    simp [beginValue]
  rw [heq]
  exact (readsAt_claim hc what).bind fun _ _ _ _ hpasses =>
    readsAt_formatHere (hpasses.coherent hc) what

theorem readsAt_read (hc : c.Coherent) (p : Primitive) :
    ReadsAt c (read p) (Grammar.scalar p) := by
  refine (readsAt_beginValue hc p.name).bind_view fun ⟨format, offset⟩ _ _ c₁ hpasses _ => ?_
  by_cases hprimitive : format.primitive? = some p
  · simp only [hprimitive, if_true]
    exact readsAt_primitiveBody (hpasses.coherent hc) p format offset
  · simp only [hprimitive, if_false]
    exact .throw _

theorem readsAt_rawDescriptor (hc : c.Coherent) :
    ReadsAt c rawDescriptor Grammar.descriptor := by
  refine (readsAt_formatHere hc "descriptor").bind_view fun ⟨format, offset⟩ _ _ c₁ hpasses _ => ?_
  have hc₁ := hpasses.coherent hc
  dsimp only
  split
  next hsymbol =>
    rw [if_pos hsymbol]
    exact (readsAt_primitiveBody hc₁ .symbol format offset).map RawDescriptor.symbol
  next hulong =>
    rw [if_neg (by simp [hulong]), if_pos hulong]
    exact (readsAt_primitiveBody hc₁ .ulong format offset).map RawDescriptor.code
  next hsymbol hulong =>
    rw [if_neg hsymbol, if_neg hulong]
    exact .throw _

end

end AmqpEnvelope
