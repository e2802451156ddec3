import AmqpEnvelope.Bytes
import Mathlib.Data.List.Induction

/-!
# Numbers in a width

Numbers are read from as many bytes as there are and written in a width.  In one width the two undo
each other, and what is read from fewer bytes is written in more of them by extension: by zeros
where the number is unsigned, and by its sign where it is signed.

Into the integers of a fixed size everything fits that their bytes can hold, so a number read from
no more bytes is one of these integers if and only if the values are equal.
-/

namespace AmqpEnvelope

namespace BigEndian

variable {width : Nat} {content : Bytes}

/-! ## Two's complement -/

/-- Two's complement in the given width: a negative number is counted back from the end of what the
width spans. -/
def ofInt (width : Nat) (value : Int) : Bytes :=
  ofNat width (if value < 0 then value + span width else value).toNat

theorem toInt_ofInt {value : Int} (hlow : -(span width : Int) ≤ 2 * value)
    (hhigh : 2 * value < span width) : toInt (ofInt width value) = value := by
  have hlt : (if value < 0 then value + span width else value).toNat < span width := by
    split <;> omega
  rw [toInt, ofInt, toNat_ofNat_of_lt hlt, length_ofNat]
  split <;> split <;> omega

/-- Reading and writing in the same width changes nothing. -/
theorem ofNat_toNat (bytes : Bytes) : ofNat bytes.length (toNat bytes) = bytes := by
  induction bytes using List.reverseRecOn with
  | nil => rfl
  | append_singleton front b ih =>
      have hb := b.toNat_lt
      have hfront : (toNat front * 256 + b.toNat) / 256 = toNat front := by omega
      have hlast : UInt8.ofNat (toNat front * 256 + b.toNat) = b := by
        rw [← UInt8.toNat_inj, UInt8.toNat_ofNat']
        omega
      rw [toNat_append_singleton, List.length_append, List.length_singleton, ofNat, hfront, hlast, ih]

theorem ofInt_toInt (bytes : Bytes) : ofInt bytes.length (toInt bytes) = bytes := by
  have hlt := toNat_lt_span bytes
  have hvalue : (if toInt bytes < 0 then toInt bytes + span bytes.length else toInt bytes).toNat =
      toNat bytes := by
    unfold toInt
    split <;> split <;> omega
  rw [ofInt, hvalue, ofNat_toNat]

/-! ## Extension -/

/-- The content behind copies of a byte, in the given width. -/
def filled (byte : UInt8) (width : Nat) (content : Bytes) : Bytes :=
  List.replicate (width - content.length) byte ++ content

/-- Extension of an unsigned number. -/
def zeroExtend (width : Nat) (content : Bytes) : Bytes := filled 0 width content

/-- Extension of a signed number, with copies of its sign. -/
def signExtend (width : Nat) (content : Bytes) : Bytes :=
  filled (if toInt content < 0 then 0xff else 0) width content

theorem length_filled (byte : UInt8) (h : content.length ≤ width) :
    (filled byte width content).length = width := by
  rw [filled, List.length_append, List.length_replicate, Nat.sub_add_cancel h]

theorem toNat_zeroExtend (width : Nat) (content : Bytes) :
    toNat (zeroExtend width content) = toNat content := by
  unfold zeroExtend filled
  induction width - content.length with
  | zero => rfl
  | succ count ih =>
      rw [List.replicate_succ, List.cons_append, toNat_cons, ih, UInt8.toNat_zero, Nat.zero_mul,
        Nat.zero_add]

theorem toInt_neg_iff : toInt content < 0 ↔ span content.length ≤ 2 * toNat content := by
  have hlt := toNat_lt_span content
  unfold toInt
  split <;> omega

/-- One more copy of the sign changes nothing. -/
theorem toInt_cons_sign (content : Bytes) :
    toInt ((if toInt content < 0 then 0xff else 0) :: content) = toInt content := by
  have hlt := toNat_lt_span content
  have hones : (0xff : UInt8).toNat = 255 := rfl
  simp only [toInt_neg_iff]
  unfold toInt
  rw [toNat_cons, List.length_cons, span_succ]
  by_cases hsign : span content.length ≤ 2 * toNat content
  · rw [if_pos hsign, hones, if_neg (by omega), if_neg (by omega)]
    omega
  · rw [if_neg hsign, UInt8.toNat_zero, Nat.zero_mul, Nat.zero_add, if_pos (by omega),
      if_pos (by omega)]

theorem toInt_signExtend (width : Nat) (content : Bytes) :
    toInt (signExtend width content) = toInt content := by
  unfold signExtend filled
  induction width - content.length with
  | zero => rfl
  | succ count ih =>
      -- What has been extended so far has the sign of the content, so the next copy is its sign.
      have hsign := toInt_cons_sign
        (List.replicate count (if toInt content < 0 then 0xff else 0) ++ content)
      rw [ih] at hsign
      exact hsign

theorem ofNat_eq_zeroExtend (h : content.length ≤ width) :
    ofNat width (toNat content) = zeroExtend width content := by
  have hlength : (zeroExtend width content).length = width := length_filled 0 h
  calc ofNat width (toNat content)
      = ofNat (zeroExtend width content).length (toNat (zeroExtend width content)) := by
        rw [hlength, toNat_zeroExtend]
    _ = zeroExtend width content := ofNat_toNat _

theorem ofInt_eq_signExtend (h : content.length ≤ width) :
    ofInt width (toInt content) = signExtend width content := by
  have hlength : (signExtend width content).length = width := length_filled _ h
  calc ofInt width (toInt content)
      = ofInt (signExtend width content).length (toInt (signExtend width content)) := by
        rw [hlength, toInt_signExtend]
    _ = signExtend width content := ofInt_toInt _

/-! ## Integers of a fixed size -/

theorem toNat_lt_of_length_le (hlength : content.length ≤ width) : toNat content < span width :=
  Nat.lt_of_lt_of_le (toNat_lt_span content) (span_le hlength)

theorem toInt_bounds_of_length_le (hlength : content.length ≤ width) :
    -(span width : Int) ≤ 2 * toInt content ∧ 2 * toInt content < span width := by
  have hspan := span_le hlength
  obtain ⟨hlow, hhigh⟩ := toInt_bounds content
  omega

theorem ubyte_eq_iff (hlength : content.length ≤ 1) {value : UInt8} :
    UInt8.ofNat (toNat content) = value ↔ toNat content = value.toNat := by
  have hlt : toNat content < 2 ^ 8 := toNat_lt_of_length_le hlength
  rw [← UInt8.toNat_inj, UInt8.toNat_ofNat', Nat.mod_eq_of_lt hlt]

theorem ushort_eq_iff (hlength : content.length ≤ 2) {value : UInt16} :
    UInt16.ofNat (toNat content) = value ↔ toNat content = value.toNat := by
  have hlt : toNat content < 2 ^ 16 := toNat_lt_of_length_le hlength
  rw [← UInt16.toNat_inj, UInt16.toNat_ofNat', Nat.mod_eq_of_lt hlt]

theorem uint_eq_iff (hlength : content.length ≤ 4) {value : UInt32} :
    UInt32.ofNat (toNat content) = value ↔ toNat content = value.toNat := by
  have hlt : toNat content < 2 ^ 32 := toNat_lt_of_length_le hlength
  rw [← UInt32.toNat_inj, UInt32.toNat_ofNat', Nat.mod_eq_of_lt hlt]

theorem byte_eq_iff (hlength : content.length ≤ 1) {value : Int8} :
    Int8.ofInt (toInt content) = value ↔ toInt content = value.toInt := by
  have hspan : span 1 = 2 ^ 8 := rfl
  obtain ⟨hlow, hhigh⟩ := toInt_bounds_of_length_le hlength
  rw [← Int8.toInt_inj, Int8.toInt_ofInt_of_le (by omega) (by omega)]

theorem short_eq_iff (hlength : content.length ≤ 2) {value : Int16} :
    Int16.ofInt (toInt content) = value ↔ toInt content = value.toInt := by
  have hspan : span 2 = 2 ^ 16 := rfl
  obtain ⟨hlow, hhigh⟩ := toInt_bounds_of_length_le hlength
  rw [← Int16.toInt_inj, Int16.toInt_ofInt_of_le (by omega) (by omega)]

theorem long_eq_iff (hlength : content.length ≤ 8) {value : Int64} :
    Int64.ofInt (toInt content) = value ↔ toInt content = value.toInt := by
  have hspan : span 8 = 2 ^ 64 := rfl
  obtain ⟨hlow, hhigh⟩ := toInt_bounds_of_length_le hlength
  rw [← Int64.toInt_inj, Int64.toInt_ofInt_of_le (by omega) (by omega)]

end BigEndian

end AmqpEnvelope
