import AmqpEnvelope.Proofs.Written.Form
import AmqpEnvelope.Proofs.Written.Number

/-!
# Written scalars

A value of a primitive type is written as one of the format codes of the type and the payload that
the code calls for.  What the payload stands for is said here for the payload alone: a number most
significant byte first, whatever its width, in two's complement where the type is signed; a
character by its code point; a text by its encoding.

* `Denotes` is what payloads stand for, and `Admits` which of them stand for anything; the
  interpretation of payloads agrees (`interpret_eq_ok_iff`, `exists_denotes_iff`).
* Every value that can be written at all has a form of full width (`fullForm_scalar`).  Its payload
  there is any of its payloads, extended (`fullContent_eq_extended`), so the compact forms say
  nothing that the full one does not.
-/

namespace AmqpEnvelope

namespace Written

/-! ## Codes -/

/-- The format codes of a primitive type, that of full width last. -/
def codes : Primitive → List FormatCode
  | .null => [.null]
  | .boolean => [.boolTrue, .boolFalse, .boolean]
  | .ubyte => [.ubyte]
  | .ushort => [.ushort]
  | .uint => [.uint0, .smallUint, .uint]
  | .ulong => [.ulong0, .smallUlong, .ulong]
  | .byte => [.byte]
  | .short => [.short]
  | .int => [.smallInt, .int]
  | .long => [.smallLong, .long]
  | .float => [.float]
  | .double => [.double]
  | .timestamp => [.timestamp]
  | .char => [.char]
  | .uuid => [.uuid]
  | .binary => [.binary8, .binary32]
  | .string => [.string8, .string32]
  | .symbol => [.symbol8, .symbol32]

variable {p : Primitive} {format : FormatCode} {back content : Bytes}

theorem primitive?_of_mem_codes (h : format ∈ codes p) : format.primitive? = some p := by
  have hall : ∀ format ∈ codes p, format.primitive? = some p := by
    cases p <;> decide
  exact hall format h

theorem mem_codes_iff : format ∈ codes p ↔ format.primitive? = some p := by
  refine ⟨primitive?_of_mem_codes, fun h => ?_⟩
  have hall : format.primitive?.all fun q => codes q |>.contains format := by
    cases format <;> decide
  rw [h, Option.all_some, List.contains_iff_mem] at hall
  exact hall

/-- No code belongs to two types. -/
theorem eq_of_mem_codes {q : Primitive} (hp : format ∈ codes p) (hq : format ∈ codes q) : p = q :=
  Option.some.inj ((mem_codes_iff.mp hp).symm.trans (mem_codes_iff.mp hq))

/-! ## Payloads and values -/

/-- The payload behind a code of the type stands for the value. -/
def Denotes : (p : Primitive) → FormatCode → (content : Bytes) → p.Carrier → Prop
  | .null, _, _, _ => True
  | .boolean, format, content, value =>
      match format with
      | .boolTrue => value = true
      | .boolFalse => value = false
      | _ => content = [if value then 1 else 0]
  | .ubyte, _, content, value => BigEndian.toNat content = value.toNat
  | .ushort, _, content, value => BigEndian.toNat content = value.toNat
  | .uint, _, content, value => BigEndian.toNat content = value.toNat
  | .ulong, _, content, value => BigEndian.toNat content = value.toNat
  | .byte, _, content, value => BigEndian.toInt content = value.toInt
  | .short, _, content, value => BigEndian.toInt content = value.toInt
  | .int, _, content, value => BigEndian.toInt content = value.toInt
  | .long, _, content, value => BigEndian.toInt content = value.toInt
  | .float, _, content, value => BigEndian.toNat content = value.bits.toNat
  | .double, _, content, value => BigEndian.toNat content = value.bits.toNat
  | .timestamp, _, content, value => BigEndian.toInt content = value.toInt
  | .char, _, content, value => BigEndian.toNat content = value.toNat
  | .uuid, _, content, value => content = value
  | .binary, _, content, value => content = value
  | .string, _, content, value => content = Utf8.encode value
  | .symbol, _, content, value => content = Utf8.encode value

/-- The payload behind a code of the type stands for a value: a boolean is 0 or 1, a character is
no surrogate and not past the last code point, and a text is the encoding of one. -/
def Admits : Primitive → FormatCode → (content : Bytes) → Prop
  | .boolean, .boolean, content => content = [0] ∨ content = [1]
  | .char, _, content =>
      BigEndian.toNat content < 0xd800 ∨
        0xdfff < BigEndian.toNat content ∧ BigEndian.toNat content < 0x110000
  | .string, _, content => ∃ text, content = Utf8.encode text
  | .symbol, _, content => ∃ text, content = Utf8.encode text
  | _, _, _ => True

/-- The bytes are a value of the type: a code of the type, and the payload that its category calls
for. -/
def ScalarOf (p : Primitive) (value : p.Carrier) (bytes : Bytes) : Prop :=
  ∃ format ∈ codes p, ∃ back content, bytes = format.toByte :: back ∧
    Payload format.category back content ∧ Denotes p format content value

/-! ## Interpretation -/

/-- Where every code of the type has a fixed width of at most `width`, so has the payload. -/
theorem length_le_of_payload {width : Nat}
    (hall : (codes p).all fun format =>
      match format.category with
      | .fixed size => size ≤ width
      | _ => false)
    (hcode : format ∈ codes p) (hpayload : Payload format.category back content) :
    content.length ≤ width := by
  have hformat := List.all_eq_true.mp hall format hcode
  split at hformat
  next size hcategory =>
    rw [hcategory] at hpayload
    rw [hpayload.2]
    exact of_decide_eq_true hformat
  next => cases hformat

/-- A character is found exactly at its code point. -/
theorem scalar?_eq_some_iff {value : Nat} {c : Char} :
    Primitive.scalar? value = some c ↔ value = c.toNat := by
  constructor
  · intro h
    by_cases hvalid : value.isValidChar
    · rw [Primitive.scalar?, dif_pos hvalid] at h
      cases h
      rfl
    · rw [Primitive.scalar?, dif_neg hvalid] at h
      cases h
  · rintro rfl
    exact dif_pos (Utf8.toNat_isValidChar c)

/-- A boolean behind its full form is the byte 0 or 1. -/
theorem boolean_eq_ok_iff (hlength : content.length = 1) {offset : Nat} {value : Bool} :
    Primitive.boolean.interpret .boolean content offset = .ok value ↔
      content = [if value then 1 else 0] := by
  obtain ⟨byte, rfl⟩ := List.length_eq_one_iff.mp hlength
  have hne : (1 : UInt8) ≠ 0 := by decide
  simp only [Primitive.interpret, List.headD_cons, List.cons.injEq, and_true]
  by_cases hzero : byte = 0
  · cases value <;> simp [hzero]
  · by_cases hone : byte = 1
    · cases value <;> simp [hone]
    · cases value <;> simp [hzero, hone]

/-- **Interpretation is denotation.**  Behind a code of the type, and with the payload that this
calls for, a payload is interpreted as the value that it stands for. -/
theorem interpret_eq_ok_iff (hcode : format ∈ codes p)
    (hpayload : Payload format.category back content) {offset : Nat} {value : p.Carrier} :
    p.interpret format content offset = .ok value ↔ Denotes p format content value := by
  have hok : ∀ {α : Type} {a b : α}, (.ok a : Except DecodeError α) = .ok b ↔ a = b :=
    (Except.ok.injEq ..).to_iff
  have hlength := fun {width : Nat} hall =>
    @length_le_of_payload p format back content width hall hcode hpayload
  cases p with
  | null => exact iff_of_true rfl trivial
  | boolean =>
      simp only [codes, List.mem_cons, List.not_mem_nil, or_false] at hcode
      rcases hcode with rfl | rfl | rfl
      · exact hok.trans eq_comm
      · exact hok.trans eq_comm
      · exact boolean_eq_ok_iff hpayload.2
  | ubyte => exact hok.trans (BigEndian.ubyte_eq_iff (hlength (by decide)))
  | ushort => exact hok.trans (BigEndian.ushort_eq_iff (hlength (by decide)))
  | uint => exact hok.trans (BigEndian.uint_eq_iff (hlength (by decide)))
  | ulong => exact hok.trans (Grammar.ulong_eq_iff (hlength (by decide)))
  | byte => exact hok.trans (BigEndian.byte_eq_iff (hlength (by decide)))
  | short => exact hok.trans (BigEndian.short_eq_iff (hlength (by decide)))
  | int => exact hok.trans (Grammar.int_eq_iff (hlength (by decide)))
  | long => exact hok.trans (BigEndian.long_eq_iff (hlength (by decide)))
  | float =>
      obtain ⟨bits⟩ := value
      simp only [Primitive.interpret, Except.ok.injEq, Float32Bits.mk.injEq]
      exact BigEndian.uint_eq_iff (hlength (by decide))
  | double =>
      obtain ⟨bits⟩ := value
      simp only [Primitive.interpret, Except.ok.injEq, Float64Bits.mk.injEq]
      exact Grammar.ulong_eq_iff (hlength (by decide))
  | timestamp => exact hok.trans (BigEndian.long_eq_iff (hlength (by decide)))
  | char =>
      simp only [Primitive.interpret, Denotes]
      rw [← scalar?_eq_some_iff]
      cases Primitive.scalar? (BigEndian.toNat content) with
      | some c => simp
      | none => simp
  | uuid => exact hok
  | binary => exact hok
  | string => exact Grammar.utf8_eq_ok_iff
  | symbol => exact Grammar.utf8_eq_ok_iff

/-- The payloads that stand for a value are those that are admitted. -/
theorem exists_denotes_iff (hcode : format ∈ codes p)
    (hpayload : Payload format.category back content) :
    (∃ value, Denotes p format content value) ↔ Admits p format content := by
  -- where every payload is interpreted, the interpretation is the value
  have hall : (∃ value, p.interpret format content 0 = .ok value) →
      ∃ value, Denotes p format content value :=
    fun ⟨value, hvalue⟩ => ⟨value, (interpret_eq_ok_iff hcode hpayload).mp hvalue⟩
  cases p with
  | boolean =>
      simp only [codes, List.mem_cons, List.not_mem_nil, or_false] at hcode
      rcases hcode with rfl | rfl | rfl
      · exact iff_of_true ⟨true, rfl⟩ trivial
      · exact iff_of_true ⟨false, rfl⟩ trivial
      · simp [Denotes, Admits]
  | char =>
      constructor
      · rintro ⟨c, hvalue⟩
        have hvalid : (BigEndian.toNat content).isValidChar := by
          rw [hvalue]
          exact Utf8.toNat_isValidChar c
        exact hvalid
      · intro hvalid
        exact ⟨Char.ofNat _, (Utf8.toNat_ofNat hvalid).symm⟩
  | string => exact Iff.rfl
  | symbol => exact Iff.rfl
  | _ => exact iff_of_true (hall ⟨_, rfl⟩) trivial

/-- A value of a type stands where the grammar of the type says. -/
theorem scalar_written_iff {bounds : Limits} {n : Nat} {bytes : Bytes} {value : p.Carrier} :
    Grammar.scalar p bounds n bytes value ↔ n = 1 ∧ ScalarOf p value bytes := by
  rw [Grammar.scalar_iff]
  refine and_congr_right fun _ => ⟨?_, ?_⟩
  · rintro ⟨format, back, content, offset, rfl, hprimitive, hpayload, hvalue⟩
    have hcode := mem_codes_iff.mpr hprimitive
    exact ⟨format, hcode, back, content, rfl, hpayload,
      (interpret_eq_ok_iff hcode hpayload).mp hvalue⟩
  · rintro ⟨format, hcode, back, content, rfl, hpayload, hdenotes⟩
    exact ⟨format, back, content, 0, rfl, mem_codes_iff.mp hcode, hpayload,
      (interpret_eq_ok_iff hcode hpayload).mpr hdenotes⟩

/-! ## Forms of full width -/

/-- The code of full width. -/
def fullCode (p : Primitive) : FormatCode := (codes p).getLastD .null

theorem fullCode_mem (p : Primitive) : fullCode p ∈ codes p := by
  cases p <;> decide

/-- The payload of a value in full width. -/
def fullContent : (p : Primitive) → p.Carrier → Bytes
  | .null, _ => []
  | .boolean, value => [if value then 1 else 0]
  | .ubyte, value => BigEndian.ofNat 1 value.toNat
  | .ushort, value => BigEndian.ofNat 2 value.toNat
  | .uint, value => BigEndian.ofNat 4 value.toNat
  | .ulong, value => BigEndian.ofNat 8 value.toNat
  | .byte, value => BigEndian.ofInt 1 value.toInt
  | .short, value => BigEndian.ofInt 2 value.toInt
  | .int, value => BigEndian.ofInt 4 value.toInt
  | .long, value => BigEndian.ofInt 8 value.toInt
  | .float, value => BigEndian.ofNat 4 value.bits.toNat
  | .double, value => BigEndian.ofNat 8 value.bits.toNat
  | .timestamp, value => BigEndian.ofInt 8 value.toInt
  | .char, value => BigEndian.ofNat 4 value.toNat
  | .uuid, value => value
  | .binary, value => value
  | .string, value => Utf8.encode value
  | .symbol, value => Utf8.encode value

/-- What stands behind the code of full width: the payload, after its length where the code has
none. -/
def fullBack (p : Primitive) (value : p.Carrier) : Bytes :=
  match (fullCode p).category with
  | .variable width => BigEndian.ofNat width (fullContent p value).length ++ fullContent p value
  | _ => fullContent p value

/-- The form of full width. -/
def fullForm (p : Primitive) (value : p.Carrier) : Bytes :=
  (fullCode p).toByte :: fullBack p value

/-- The value can be written: an identifier has 16 bytes, and the length of a byte string or a text
fits four. -/
def Storable : (p : Primitive) → p.Carrier → Prop
  | .uuid, value => value.length = 16
  | .binary, value => value.length < BigEndian.span 4
  | .string, value => (Utf8.encode value).length < BigEndian.span 4
  | .symbol, value => (Utf8.encode value).length < BigEndian.span 4
  | _, _ => True

theorem fullContent_payload {value : p.Carrier} (h : Storable p value) :
    Payload (fullCode p).category (fullBack p value) (fullContent p value) := by
  have hcounted : ∀ {content : Bytes}, content.length < BigEndian.span 4 →
      ∃ head, BigEndian.ofNat 4 content.length ++ content = head ++ content ∧ head.length = 4 ∧
        BigEndian.toNat head = content.length :=
    fun hlength => ⟨_, rfl, BigEndian.length_ofNat _ _, BigEndian.toNat_ofNat_of_lt hlength⟩
  cases p with
  | null => exact ⟨rfl, rfl⟩
  | boolean => exact ⟨rfl, rfl⟩
  | uuid => exact ⟨rfl, h⟩
  | binary => exact hcounted h
  | string => exact hcounted h
  | symbol => exact hcounted h
  | _ => exact ⟨rfl, BigEndian.length_ofNat _ _⟩

theorem fullContent_denotes (p : Primitive) (value : p.Carrier) :
    Denotes p (fullCode p) (fullContent p value) value := by
  have hspan1 : BigEndian.span 1 = 2 ^ 8 := rfl
  have hspan2 : BigEndian.span 2 = 2 ^ 16 := rfl
  have hspan4 : BigEndian.span 4 = 2 ^ 32 := rfl
  have hlong : ∀ value : Int64, BigEndian.toInt (BigEndian.ofInt 8 value.toInt) = value.toInt := by
    intro value
    have hspan8 : BigEndian.span 8 = 2 ^ 64 := rfl
    have hlow := Int64.le_toInt value
    have hhigh := Int64.toInt_lt value
    exact BigEndian.toInt_ofInt (by omega) (by omega)
  cases p with
  | null => trivial
  | boolean => rfl
  | ubyte => exact BigEndian.toNat_ofNat_of_lt value.toNat_lt
  | ushort => exact BigEndian.toNat_ofNat_of_lt value.toNat_lt
  | uint => exact BigEndian.toNat_ofNat_of_lt value.toNat_lt
  | ulong => exact BigEndian.toNat_ofNat_of_lt value.toNat_lt
  | byte =>
      have hlow := Int8.le_toInt value
      have hhigh := Int8.toInt_lt value
      exact BigEndian.toInt_ofInt (by omega) (by omega)
  | short =>
      have hlow := Int16.le_toInt value
      have hhigh := Int16.toInt_lt value
      exact BigEndian.toInt_ofInt (by omega) (by omega)
  | int =>
      have hlow := Int32.le_toInt value
      have hhigh := Int32.toInt_lt value
      exact BigEndian.toInt_ofInt (by omega) (by omega)
  | long => exact hlong value
  | float => exact BigEndian.toNat_ofNat_of_lt value.bits.toNat_lt
  | double => exact BigEndian.toNat_ofNat_of_lt value.bits.toNat_lt
  | timestamp => exact hlong value
  | char =>
      have hlast : value.toNat < BigEndian.span 4 := by
        have hvalid := Utf8.toNat_isValidChar value
        simp only [Nat.isValidChar] at hvalid
        omega
      exact BigEndian.toNat_ofNat_of_lt hlast
  | uuid => rfl
  | binary => rfl
  | string => rfl
  | symbol => rfl

/-- **Every value has a form of full width**, as far as it can be written at all. -/
theorem fullForm_scalar {value : p.Carrier} (h : Storable p value) :
    ScalarOf p value (fullForm p value) :=
  ⟨fullCode p, fullCode_mem p, _, _, rfl, fullContent_payload h, fullContent_denotes p value⟩

/-! ## Compact forms -/

/-- A payload in full width: constants are spelled out, and numbers are extended by zeros or by
their sign. -/
def extended : Primitive → FormatCode → (content : Bytes) → Bytes
  | .boolean, .boolTrue, _ => [1]
  | .boolean, .boolFalse, _ => [0]
  | .uint, _, content => BigEndian.zeroExtend 4 content
  | .ulong, _, content => BigEndian.zeroExtend 8 content
  | .int, _, content => BigEndian.signExtend 4 content
  | .long, _, content => BigEndian.signExtend 8 content
  | _, _, content => content

/-- The length in front of a payload bounds it. -/
theorem length_lt_of_variable {width : Nat} (hwidth : width ≤ 4)
    (hpayload : Payload (.variable width) back content) : content.length < BigEndian.span 4 := by
  obtain ⟨head, -, hlength, hvalue⟩ := hpayload
  rw [← hvalue]
  exact BigEndian.toNat_lt_of_length_le (hlength ▸ hwidth)

/-- Where all codes of the type have one width, so has the payload. -/
theorem length_eq_of_payload {width : Nat}
    (hall : (codes p).all fun format => format.category == .fixed width) (hcode : format ∈ codes p)
    (hpayload : Payload format.category back content) : content.length = width := by
  rw [beq_iff_eq.mp (List.all_eq_true.mp hall format hcode)] at hpayload
  exact hpayload.2

/-- Texts and byte strings have two codes each, with a length in one byte or in four. -/
theorem length_lt_of_payload
    (hall : (codes p).all fun format =>
      format.category == .variable 1 || format.category == .variable 4)
    (hcode : format ∈ codes p) (hpayload : Payload format.category back content) :
    content.length < BigEndian.span 4 := by
  have hformat := List.all_eq_true.mp hall format hcode
  rw [Bool.or_eq_true, beq_iff_eq, beq_iff_eq] at hformat
  rcases hformat with hcategory | hcategory
  all_goals
    rw [hcategory] at hpayload
    exact length_lt_of_variable (by decide) hpayload

/-- Whatever a payload stands for can be written. -/
theorem storable_of_denotes {value : p.Carrier} (hcode : format ∈ codes p)
    (hpayload : Payload format.category back content) (h : Denotes p format content value) :
    Storable p value := by
  cases p with
  | uuid =>
      have hlength : content.length = 16 := length_eq_of_payload (by decide) hcode hpayload
      exact (congrArg List.length h).symm.trans hlength
  | binary =>
      obtain rfl : content = value := h
      exact length_lt_of_payload (by decide) hcode hpayload
  | string =>
      obtain rfl : content = Utf8.encode value := h
      exact length_lt_of_payload (by decide) hcode hpayload
  | symbol =>
      obtain rfl : content = Utf8.encode value := h
      exact length_lt_of_payload (by decide) hcode hpayload
  | _ => trivial

/-- **Compact forms agree with the full one.**  The payload that a value has in full width is any
of its payloads, extended. -/
theorem fullContent_eq_extended {value : p.Carrier} (hcode : format ∈ codes p)
    (hpayload : Payload format.category back content) (h : Denotes p format content value) :
    fullContent p value = extended p format content := by
  have hle := fun {width : Nat} hall =>
    @length_le_of_payload p format back content width hall hcode hpayload
  have hlength := fun {width : Nat} hall =>
    @length_eq_of_payload p format back content width hall hcode hpayload
  have hunsigned : ∀ {width number : Nat}, content.length = width →
      BigEndian.toNat content = number → BigEndian.ofNat width number = content := by
    rintro _ _ rfl rfl
    exact BigEndian.ofNat_toNat content
  have hsigned : ∀ {width : Nat} {number : Int}, content.length = width →
      BigEndian.toInt content = number → BigEndian.ofInt width number = content := by
    rintro _ _ rfl rfl
    exact BigEndian.ofInt_toInt content
  cases p with
  | null => exact (List.eq_nil_of_length_eq_zero (hlength (by decide))).symm
  | boolean =>
      simp only [codes, List.mem_cons, List.not_mem_nil, or_false] at hcode
      rcases hcode with rfl | rfl | rfl
      · obtain rfl : value = true := h
        rfl
      · obtain rfl : value = false := h
        rfl
      · exact h.symm
  | ubyte => exact hunsigned (hlength (by decide)) h
  | ushort => exact hunsigned (hlength (by decide)) h
  | uint =>
      exact (congrArg _ h.symm).trans (BigEndian.ofNat_eq_zeroExtend (hle (by decide)))
  | ulong =>
      exact (congrArg _ h.symm).trans (BigEndian.ofNat_eq_zeroExtend (hle (by decide)))
  | byte => exact hsigned (hlength (by decide)) h
  | short => exact hsigned (hlength (by decide)) h
  | int =>
      exact (congrArg _ h.symm).trans (BigEndian.ofInt_eq_signExtend (hle (by decide)))
  | long =>
      exact (congrArg _ h.symm).trans (BigEndian.ofInt_eq_signExtend (hle (by decide)))
  | float => exact hunsigned (hlength (by decide)) h
  | double => exact hunsigned (hlength (by decide)) h
  | timestamp => exact hsigned (hlength (by decide)) h
  | char => exact hunsigned (hlength (by decide)) h
  | uuid => exact h.symm
  | binary => exact h.symm
  | string => exact h.symm
  | symbol => exact h.symm

/-- The compact form of -2. -/
example : fullContent .int (-2) = extended .int .smallInt [0xfe] := by
  decide

end Written

end AmqpEnvelope
