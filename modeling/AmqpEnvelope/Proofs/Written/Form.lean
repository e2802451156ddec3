import AmqpEnvelope.Proofs.Grammar.Combinator
import AmqpEnvelope.Proofs.Text.Utf8

/-!
# Written forms

How values are written, byte for byte: the first byte says which form it is, and every form
has a width for the numbers in it.  These descriptions share nothing with the readers but
the numeric value of bytes and the encoding of texts, so that what is read can be compared
with what was meant.

A size counts everything behind it, and that of a list includes the field in which its
elements are counted.
-/

namespace AmqpEnvelope

namespace Written

/-- The first bytes of the forms of a type, with the width that goes with each. -/
abbrev Forms := List (UInt8 × Nat)

def binaryForms : Forms := [(0xa0, 1), (0xb0, 4)]

def stringForms : Forms := [(0xa1, 1), (0xb1, 4)]

def symbolForms : Forms := [(0xa3, 1), (0xb3, 4)]

def listForms : Forms := [(0xc0, 1), (0xd0, 4)]

def mapForms : Forms := [(0xc1, 1), (0xd1, 4)]

def arrayForms : Forms := [(0xe0, 1), (0xf0, 4)]

def ulongForms : Forms := [(0x44, 0), (0x53, 1), (0x80, 8)]

def intForms : Forms := [(0x54, 1), (0x71, 4)]

/-- A number of the given width, and as many bytes as it says. -/
def Counted (width : Nat) (content bytes : Bytes) : Prop :=
  ∃ size, bytes = size ++ content ∧ size.length = width ∧ BigEndian.toNat size = content.length

/-- Bytes behind their number. -/
def Sized (forms : Forms) (content bytes : Bytes) : Prop :=
  ∃ form ∈ forms, ∃ rest, bytes = form.1 :: rest ∧ Counted form.2 content rest

/-- Bytes of the width of the form. -/
def Fixed (forms : Forms) (content bytes : Bytes) : Prop :=
  ∃ form ∈ forms, bytes = form.1 :: content ∧ content.length = form.2

/-- The size of what follows, the number of elements, and the elements. -/
def Enclosed (width cap : Nat) (items : List Bytes) (bytes : Bytes) : Prop :=
  items.length ≤ cap ∧ ∃ count, count.length = width ∧ BigEndian.toNat count = items.length ∧
    Counted width (count ++ items.flatten) bytes

/-- Elements in one of the forms of a list or a map. -/
def Collected (forms : Forms) (cap : Nat) (items : List Bytes) (bytes : Bytes) : Prop :=
  ∃ form ∈ forms, ∃ rest, bytes = form.1 :: rest ∧ Enclosed form.2 cap items rest

def BinaryOf (content bytes : Bytes) : Prop := Sized binaryForms content bytes

def SymbolOf (text : String) (bytes : Bytes) : Prop := Sized symbolForms (Utf8.encode text) bytes

def UlongOf (value : UInt64) (bytes : Bytes) : Prop :=
  ∃ content, Fixed ulongForms content bytes ∧ BigEndian.toNat content = value.toNat

def IntOf (value : Int32) (bytes : Bytes) : Prop :=
  ∃ content, Fixed intForms content bytes ∧ BigEndian.toInt content = value.toInt

/-- A list; the empty one has a form of its own. -/
def ListOf (cap : Nat) (items : List Bytes) (bytes : Bytes) : Prop :=
  (items = [] ∧ bytes = [0x45]) ∨ Collected listForms cap items bytes

def MapOf (cap : Nat) (items : List Bytes) (bytes : Bytes) : Prop :=
  Collected mapForms cap items bytes ∧ items.length % 2 = 0

/-- A descriptor is a symbol or a number. -/
inductive DescriptorOf : RawDescriptor → Bytes → Prop
  | symbol {text : String} {bytes : Bytes} (h : SymbolOf text bytes) :
      DescriptorOf (.symbol text) bytes
  | code {value : UInt64} {bytes : Bytes} (h : UlongOf value bytes) :
      DescriptorOf (.code value) bytes

/-- A marker, a descriptor and a body. -/
def Described (raw : RawDescriptor) (body bytes : Bytes) : Prop :=
  ∃ descriptor, bytes = 0x00 :: (descriptor ++ body) ∧ DescriptorOf raw descriptor

/-- A described list of fields under one of the given names. -/
def Composite (cap : Nat) (names : List String) (fields : List Bytes) (bytes : Bytes) : Prop :=
  ∃ name ∈ names, ∃ list, Described (.symbol name) list bytes ∧ ListOf cap fields list

end Written

/-! ## Forms of primitive types -/

namespace Written

/-- The forms are those of the format codes of a primitive type, with the category that
each width stands for. -/
structure Spells (p : Primitive) (category : Nat → WidthCategory) (forms : Forms) : Prop where
  form : ∀ form ∈ forms, ∃ format : FormatCode, form.1 = format.toByte ∧
    format.primitive? = some p ∧ format.category = category form.2
  code : ∀ format : FormatCode, format.primitive? = some p → ∃ width,
    format.category = category width ∧ (format.toByte, width) ∈ forms

/-- Whether each form is that of a code that passes a check can be decided form by form. -/
theorem exists_code_of_forms {forms : Forms} (check : FormatCode → Nat → Bool)
    (hall : ∀ form ∈ forms, (FormatCode.ofByte? form.1).any fun format => check format form.2)
    {form : UInt8 × Nat} (hform : form ∈ forms) :
    ∃ format : FormatCode, form.1 = format.toByte ∧ check format form.2 = true := by
  obtain ⟨format, hfound, hformat⟩ := (Option.any_eq_true _ _).mp (hall form hform)
  exact ⟨format, FormatCode.toByte_of_ofByte? hfound, hformat⟩

theorem Spells.of_check {p : Primitive} {category : Nat → WidthCategory} {forms : Forms}
    (hall : ∀ form ∈ forms, (FormatCode.ofByte? form.1).any fun format =>
      format.primitive? == some p && format.category == category form.2)
    (hcode : ∀ format : FormatCode, format.primitive? = some p → ∃ width,
      format.category = category width ∧ (format.toByte, width) ∈ forms) :
    Spells p category forms where
  form := by
    intro form hform
    obtain ⟨format, hbyte, hformat⟩ := exists_code_of_forms
      (fun format width => format.primitive? == some p && format.category == category width)
      hall hform
    rw [Bool.and_eq_true, beq_iff_eq, beq_iff_eq] at hformat
    exact ⟨format, hbyte, hformat⟩
  code := hcode

theorem spells_binary : Spells .binary .variable binaryForms := by
  refine .of_check (by decide) fun format hformat => ?_
  cases format <;> first
    | exact ⟨_, rfl, by decide⟩
    | cases hformat

theorem spells_symbol : Spells .symbol .variable symbolForms := by
  refine .of_check (by decide) fun format hformat => ?_
  cases format <;> first
    | exact ⟨_, rfl, by decide⟩
    | cases hformat

theorem spells_ulong : Spells .ulong .fixed ulongForms := by
  refine .of_check (by decide) fun format hformat => ?_
  cases format <;> first
    | exact ⟨_, rfl, by decide⟩
    | cases hformat

theorem spells_int : Spells .int .fixed intForms := by
  refine .of_check (by decide) fun format hformat => ?_
  cases format <;> first
    | exact ⟨_, rfl, by decide⟩
    | cases hformat

theorem mem_listForms {form : UInt8 × Nat} :
    form ∈ listForms ↔ form = (0xc0, 1) ∨ form = (0xd0, 4) := by
  rw [listForms, List.mem_cons, List.mem_singleton]

theorem mem_mapForms {form : UInt8 × Nat} :
    form ∈ mapForms ↔ form = (0xc1, 1) ∨ form = (0xd1, 4) := by
  rw [mapForms, List.mem_cons, List.mem_singleton]

section

variable {p : Primitive} {forms : Forms} {content bytes : Bytes}

theorem Fixed.length_le {width : Nat} (hforms : ∀ form ∈ forms, form.2 ≤ width)
    (h : Fixed forms content bytes) : content.length ≤ width := by
  obtain ⟨form, hform, -, hlength⟩ := h
  rw [hlength]
  exact hforms form hform

/-- A code of a type with variable width and its payload are bytes behind their number. -/
theorem Spells.sized_iff (h : Spells p .variable forms) :
    (∃ format back, bytes = FormatCode.toByte format :: back ∧ format.primitive? = some p ∧
      Payload format.category back content) ↔ Sized forms content bytes := by
  constructor
  · rintro ⟨format, back, rfl, hprimitive, hpayload⟩
    obtain ⟨width, hcategory, hform⟩ := h.code format hprimitive
    rw [hcategory] at hpayload
    exact ⟨_, hform, back, rfl, hpayload⟩
  · rintro ⟨form, hform, rest, rfl, hcounted⟩
    obtain ⟨format, hbyte, hprimitive, hcategory⟩ := h.form form hform
    refine ⟨format, rest, by rw [hbyte], hprimitive, ?_⟩
    rw [hcategory]
    exact hcounted

/-- A code of a type with fixed width and its payload are bytes of that width. -/
theorem Spells.fixed_iff (h : Spells p .fixed forms) :
    (∃ format back, bytes = FormatCode.toByte format :: back ∧ format.primitive? = some p ∧
      Payload format.category back content) ↔ Fixed forms content bytes := by
  constructor
  · rintro ⟨format, back, rfl, hprimitive, hpayload⟩
    obtain ⟨size, hcategory, hform⟩ := h.code format hprimitive
    rw [hcategory] at hpayload
    obtain ⟨rfl, hlength⟩ := hpayload
    exact ⟨_, hform, rfl, hlength⟩
  · rintro ⟨form, hform, rfl, hlength⟩
    obtain ⟨format, hbyte, hprimitive, hcategory⟩ := h.form form hform
    refine ⟨format, content, by rw [hbyte], hprimitive, ?_⟩
    rw [hcategory]
    exact ⟨rfl, hlength⟩

end

end Written

/-! ## Primitive values and descriptors -/

namespace Grammar

open Written

variable {bounds : Limits} {n : Nat} {bs : Bytes}

theorem binary_iff {content : Bytes} :
    scalar .binary bounds n bs content ↔ n = 1 ∧ BinaryOf content bs := by
  rw [scalar_iff, BinaryOf, ← spells_binary.sized_iff]
  refine and_congr_right fun _ => ⟨?_, ?_⟩
  · rintro ⟨format, back, _, offset, hbs, hprimitive, hpayload, hvalue⟩
    obtain rfl := Except.ok.inj hvalue
    exact ⟨format, back, hbs, hprimitive, hpayload⟩
  · rintro ⟨format, back, hbs, hprimitive, hpayload⟩
    exact ⟨format, back, content, 0, hbs, hprimitive, hpayload, rfl⟩

theorem utf8_eq_ok_iff {what : String} {content : Bytes} {offset : Nat} {text : String} :
    Primitive.utf8 what content offset = .ok text ↔ content = Utf8.encode text := by
  rw [← Utf8.decode_eq_ok_iff, Primitive.utf8]
  cases Utf8.decode content with
  | ok found => simp
  | error validUpTo => simp

/-- Eight bytes hold an unsigned long. -/
theorem ulong_eq_iff {content : Bytes} (hlength : content.length ≤ 8) {value : UInt64} :
    UInt64.ofNat (BigEndian.toNat content) = value ↔ BigEndian.toNat content = value.toNat := by
  have hlt : BigEndian.toNat content < 2 ^ 64 :=
    Nat.lt_of_lt_of_le (BigEndian.toNat_lt_span content) (BigEndian.span_le hlength)
  rw [← UInt64.toNat_inj, UInt64.toNat_ofNat', Nat.mod_eq_of_lt hlt]

/-- Four bytes hold an int. -/
theorem int_eq_iff {content : Bytes} (hlength : content.length ≤ 4) {value : Int32} :
    Int32.ofInt (BigEndian.toInt content) = value ↔ BigEndian.toInt content = value.toInt := by
  have hspan : BigEndian.span content.length ≤ 2 ^ 32 := BigEndian.span_le hlength
  obtain ⟨hlow, hhigh⟩ := BigEndian.toInt_bounds content
  rw [← Int32.toInt_inj, Int32.toInt_ofInt_of_le (by omega) (by omega)]

/-- An unsigned long is a number in one of its forms. -/
theorem ulong_written_iff {value : UInt64} :
    (∃ format back content offset, bs = FormatCode.toByte format :: back ∧
      format.primitive? = some .ulong ∧ Payload format.category back content ∧
        Primitive.ulong.interpret format content offset = .ok value) ↔ UlongOf value bs := by
  have hforms : ∀ form ∈ ulongForms, form.2 ≤ 8 := by decide
  constructor
  · rintro ⟨format, back, content, offset, hbs, hprimitive, hpayload, hvalue⟩
    have hfixed := spells_ulong.fixed_iff.mp ⟨format, back, hbs, hprimitive, hpayload⟩
    exact ⟨content, hfixed, (ulong_eq_iff (hfixed.length_le hforms)).mp (Except.ok.inj hvalue)⟩
  · rintro ⟨content, hfixed, hvalue⟩
    obtain ⟨format, back, hbs, hprimitive, hpayload⟩ := spells_ulong.fixed_iff.mpr hfixed
    refine ⟨format, back, content, 0, hbs, hprimitive, hpayload, congrArg Except.ok ?_⟩
    exact (ulong_eq_iff (hfixed.length_le hforms)).mpr hvalue

theorem int_iff {value : Int32} :
    scalar .int bounds n bs value ↔ n = 1 ∧ IntOf value bs := by
  have hforms : ∀ form ∈ intForms, form.2 ≤ 4 := by decide
  rw [scalar_iff]
  refine and_congr_right fun _ => ⟨?_, ?_⟩
  · rintro ⟨format, back, content, offset, hbs, hprimitive, hpayload, hvalue⟩
    have hfixed := spells_int.fixed_iff.mp ⟨format, back, hbs, hprimitive, hpayload⟩
    exact ⟨content, hfixed, (int_eq_iff (hfixed.length_le hforms)).mp (Except.ok.inj hvalue)⟩
  · rintro ⟨content, hfixed, hvalue⟩
    obtain ⟨format, back, hbs, hprimitive, hpayload⟩ := spells_int.fixed_iff.mpr hfixed
    refine ⟨format, back, content, 0, hbs, hprimitive, hpayload, congrArg Except.ok ?_⟩
    exact (int_eq_iff (hfixed.length_le hforms)).mpr hvalue

/-- A symbol is the encoding of a text behind its length. -/
theorem symbol_written_iff {text : String} :
    (∃ format back content offset, bs = FormatCode.toByte format :: back ∧
      format.primitive? = some .symbol ∧ Payload format.category back content ∧
        Primitive.symbol.interpret format content offset = .ok text) ↔ SymbolOf text bs := by
  rw [SymbolOf, ← spells_symbol.sized_iff]
  constructor
  · rintro ⟨format, back, content, offset, hbs, hprimitive, hpayload, hvalue⟩
    obtain rfl := utf8_eq_ok_iff.mp hvalue
    exact ⟨format, back, hbs, hprimitive, hpayload⟩
  · rintro ⟨format, back, hbs, hprimitive, hpayload⟩
    exact ⟨format, back, _, 0, hbs, hprimitive, hpayload, utf8_eq_ok_iff.mpr rfl⟩

/-- Descriptors are read as they are written. -/
theorem descriptor_written_iff {raw : RawDescriptor} :
    descriptor bounds n bs raw ↔ n = 0 ∧ DescriptorOf raw bs := by
  rw [descriptor_iff]
  refine and_congr_right fun _ => ⟨?_, ?_⟩
  · rintro ⟨format, back, content, offset, hbs, hpayload, hraw⟩
    rcases hraw with ⟨text, hprimitive, rfl, hvalue⟩ | ⟨value, hprimitive, rfl, hvalue⟩
    · exact .symbol (symbol_written_iff.mp
        ⟨format, back, content, offset, hbs, hprimitive, hpayload, hvalue⟩)
    · exact .code (ulong_written_iff.mp
        ⟨format, back, content, offset, hbs, hprimitive, hpayload, hvalue⟩)
  · intro h
    cases h with
    | symbol h =>
        obtain ⟨format, back, content, offset, hbs, hprimitive, hpayload, hvalue⟩ :=
          symbol_written_iff.mpr h
        exact ⟨format, back, content, offset, hbs, hpayload, .inl ⟨_, hprimitive, rfl, hvalue⟩⟩
    | code h =>
        obtain ⟨format, back, content, offset, hbs, hprimitive, hpayload, hvalue⟩ :=
          ulong_written_iff.mpr h
        exact ⟨format, back, content, offset, hbs, hpayload, .inr ⟨_, hprimitive, rfl, hvalue⟩⟩

end Grammar

end AmqpEnvelope
