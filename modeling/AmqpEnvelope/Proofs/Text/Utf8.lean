import AmqpEnvelope.Text.Utf8
import Mathlib.Algebra.Group.Nat.Defs

/-!
# Reading UTF-8 undoes writing it

A byte string is read as a text exactly when it is what the text is written as
(`Utf8.decode_eq_ok_iff`), so the valid byte strings are the written ones and no text is
written in two ways.

The reader goes by single bytes and the writer by characters.  What the two share is the
value of a character, cut into sextets.  An open sequence knows the sextets at the top,
and `Continues` says which values may still come of it: those are characters, and their
encoding starts with the byte that opened the sequence (`Opens.starts`).
-/

namespace AmqpEnvelope.Utf8

/-! ## Characters in sextets -/

/-- How many bytes follow the first one in the encoding of a value. -/
def following (value : Nat) : Nat :=
  if value < 0x80 then 0 else if value < 0x800 then 1 else if value < 0x10000 then 2 else 3

/-- What the first byte says of the number of bytes that follow it. -/
def mark : (count : Nat) → Nat
  | 0 => 0
  | 1 => 0xc0
  | 2 => 0xe0
  | _ => 0xf0

/-- The first byte of the encoding of a value. -/
def first (value : Nat) : Nat := mark (following value) + value / 64 ^ following value

/-- The bytes of the lowest sextets of a value. -/
def continuation : (count value : Nat) → Bytes
  | 0, _ => []
  | count + 1, value =>
      UInt8.ofNat (0x80 + value / 64 ^ count % 64) :: continuation count value

theorem toNat_isValidChar (c : Char) : c.toNat.isValidChar := c.valid

theorem toNat_ofNat {value : Nat} (h : value.isValidChar) : (Char.ofNat value).toNat = value := by
  unfold Char.ofNat
  rw [dif_pos h]
  rfl

/-- A character is written as a first byte and the sextets below it. -/
theorem utf8EncodeChar_eq (c : Char) : String.utf8EncodeChar c =
    UInt8.ofNat (first c.toNat) :: continuation (following c.toNat) c.toNat := by
  have hvalid := toNat_isValidChar c
  have hval : c.val.toNat = c.toNat := rfl
  unfold String.utf8EncodeChar first following
  rw [hval]
  generalize c.toNat = value at hvalid
  simp only [Nat.isValidChar] at hvalid
  by_cases h1 : value < 0x80
  · rw [if_pos (by omega), if_pos h1]
    simp [mark, continuation]
  · rw [if_neg (by omega), if_neg h1]
    by_cases h2 : value < 0x800
    · rw [if_pos (by omega), if_pos h2]
      simp only [mark, continuation, List.cons.injEq, and_true]
      refine ⟨?_, ?_⟩ <;> congr 1 <;> omega
    · rw [if_neg (by omega), if_neg h2]
      by_cases h3 : value < 0x10000
      · rw [if_pos (by omega), if_pos h3]
        simp only [mark, continuation, List.cons.injEq, and_true]
        refine ⟨?_, ?_, ?_⟩ <;> congr 1 <;> omega
      · rw [if_neg (by omega), if_neg h3]
        simp only [mark, continuation, List.cons.injEq, and_true]
        refine ⟨?_, ?_, ?_, ?_⟩ <;> congr 1 <;> omega

/-- A value that is a character is written as its bytes. -/
theorem utf8EncodeChar_ofNat {value : Nat} (h : value.isValidChar) :
    String.utf8EncodeChar (Char.ofNat value) =
      UInt8.ofNat (first value) :: continuation (following value) value := by
  rw [utf8EncodeChar_eq, toNat_ofNat h]

theorem first_lt {value : Nat} (h : value.isValidChar) : first value < 256 := by
  simp only [Nat.isValidChar] at h
  unfold first following
  repeat' split
  all_goals simp only [mark]; omega

/-! ## Values that continue a sequence -/

/-- The value has the bits read so far above its open sextets, and the first open sextet
is in range. -/
structure Continues (p : Pending) (value : Nat) : Prop where
  upper : value / 64 ^ (p.more + 1) = p.value
  low_le : p.low ≤ 0x80 + value / 64 ^ p.more % 64
  le_high : 0x80 + value / 64 ^ p.more % 64 ≤ p.high

/-- The rows of the table of first bytes that open a sequence. -/
inductive Opens : (byte : Nat) → Pending → Prop where
  | two {byte : Nat} (low : 0xc2 ≤ byte) (high : byte < 0xe0) :
      Opens byte ⟨0x80, 0xbf, 0, byte - 0xc0⟩
  | three {byte : Nat} (low : 0xe1 ≤ byte) (high : byte < 0xf0) (notSurrogate : byte ≠ 0xed) :
      Opens byte ⟨0x80, 0xbf, 1, byte - 0xe0⟩
  | notOverlongThree : Opens 0xe0 ⟨0xa0, 0xbf, 1, 0⟩
  | belowSurrogates : Opens 0xed ⟨0x80, 0x9f, 1, 0xd⟩
  | four {byte : Nat} (low : 0xf1 ≤ byte) (high : byte < 0xf4) :
      Opens byte ⟨0x80, 0xbf, 2, byte - 0xf0⟩
  | notOverlongFour : Opens 0xf0 ⟨0x90, 0xbf, 2, 0⟩
  | lastPlane : Opens 0xf4 ⟨0x80, 0x8f, 2, 4⟩

theorem Opens.lead_eq {byte : Nat} {p : Pending} (h : Opens byte p) : lead byte = .opens p := by
  cases h <;> simp (disch := omega) only [lead, if_pos, if_neg] <;> rfl

/-- A byte is a character of its own, opens a sequence, or does neither. -/
theorem lead_cases (byte : Nat) : (byte < 0x80 ∧ lead byte = .single (Char.ofNat byte)) ∨
    (∃ p, Opens byte p ∧ lead byte = .opens p) ∨ lead byte = .invalid := by
  have hrow {p : Pending} (h : Opens byte p) :
      ∃ p, Opens byte p ∧ lead byte = .opens p := ⟨p, h, h.lead_eq⟩
  obtain h | h | h | h | h | h | h | h | h | h :
      byte < 0x80 ∨ (0x80 ≤ byte ∧ byte < 0xc2) ∨ (0xc2 ≤ byte ∧ byte < 0xe0) ∨ byte = 0xe0 ∨
        byte = 0xed ∨ (0xe1 ≤ byte ∧ byte < 0xf0 ∧ byte ≠ 0xed) ∨ byte = 0xf0 ∨
        (0xf1 ≤ byte ∧ byte < 0xf4) ∨ byte = 0xf4 ∨ 0xf5 ≤ byte := by omega
  · exact .inl ⟨h, if_pos h⟩
  · exact .inr (.inr (by simp (disch := omega) only [lead, if_pos, if_neg]))
  · exact .inr (.inl (hrow (.two h.1 h.2)))
  · exact .inr (.inl (hrow (h ▸ Opens.notOverlongThree)))
  · exact .inr (.inl (hrow (h ▸ Opens.belowSurrogates)))
  · exact .inr (.inl (hrow (.three h.1 h.2.1 h.2.2)))
  · exact .inr (.inl (hrow (h ▸ Opens.notOverlongFour)))
  · exact .inr (.inl (hrow (.four h.1 h.2)))
  · exact .inr (.inl (hrow (h ▸ Opens.lastPlane)))
  · exact .inr (.inr (by simp (disch := omega) only [lead, if_neg]))

/-- The first open sextet is one of a continuation byte. -/
theorem Opens.range {byte : Nat} {p : Pending} (h : Opens byte p) :
    0x80 ≤ p.low ∧ p.high ≤ 0xbf := by
  cases h <;> exact ⟨by simp only; omega, by simp only; omega⟩

/-- What continues the sequence of a first byte is a character with that first byte. -/
theorem Opens.starts {byte value : Nat} {p : Pending} (hopens : Opens byte p)
    (h : Continues p value) :
    value.isValidChar ∧ following value = p.more + 1 ∧ first value = byte := by
  obtain ⟨hupper, hlow, hhigh⟩ := h
  have hvalue : following value = p.more + 1 ∧ value.isValidChar := by
    simp only [following, Nat.isValidChar]
    cases hopens <;> simp only [Nat.reduceAdd, Nat.reducePow] at hupper hlow hhigh ⊢ <;> grind
  refine ⟨hvalue.2, hvalue.1, ?_⟩
  rw [first, hvalue.1]
  cases hopens <;> simp only [Nat.reduceAdd, Nat.reducePow, mark] at hupper hlow hhigh ⊢ <;> omega

/-- The first byte of a character announces what follows it. -/
theorem lead_first {value : Nat} (h : value.isValidChar) :
    (lead (first value) = .single (Char.ofNat value) ∧ following value = 0) ∨
      ∃ p, Opens (first value) p ∧ following value = p.more + 1 ∧ Continues p value := by
  simp only [Nat.isValidChar] at h
  by_cases h1 : value < 0x80
  · left
    simp [first, following, h1, mark, lead]
  right
  by_cases h2 : value < 0x800
  · have hfollowing : following value = 1 := by simp [following, h1, h2]
    have hfirst : first value = 0xc0 + value / 64 := by rw [first, hfollowing, mark, Nat.pow_one]
    refine ⟨_, .two (by omega) (by omega), hfollowing, ?_, ?_, ?_⟩ <;> simp only <;> omega
  by_cases h3 : value < 0x10000
  · have hfollowing : following value = 2 := by simp [following, h1, h2, h3]
    have hfirst : first value = 0xe0 + value / 4096 := by rw [first, hfollowing]; rfl
    by_cases hlow : value / 4096 = 0
    · rw [show first value = 0xe0 by omega]
      refine ⟨_, .notOverlongThree, hfollowing, ?_, ?_, ?_⟩ <;> simp only <;> omega
    · by_cases hhigh : value / 4096 = 0xd
      · rw [show first value = 0xed by omega]
        refine ⟨_, .belowSurrogates, hfollowing, ?_, ?_, ?_⟩ <;> simp only <;> omega
      · refine ⟨_, .three (by omega) (by omega) (by omega), hfollowing, ?_, ?_, ?_⟩ <;>
          simp only <;> omega
  · have hfollowing : following value = 3 := by simp [following, h1, h2, h3]
    have hfirst : first value = 0xf0 + value / 262144 := by rw [first, hfollowing]; rfl
    by_cases hlow : value / 262144 = 0
    · rw [show first value = 0xf0 by omega]
      refine ⟨_, .notOverlongFour, hfollowing, ?_, ?_, ?_⟩ <;> simp only <;> omega
    · by_cases hhigh : value / 262144 = 4
      · rw [show first value = 0xf4 by omega]
        refine ⟨_, .lastPlane, hfollowing, ?_, ?_, ?_⟩ <;> simp only <;> omega
      · refine ⟨_, .four (by omega) (by omega), hfollowing, ?_, ?_, ?_⟩ <;> simp only <;> omega

/-- A byte that is a character of its own is written as that byte. -/
theorem utf8EncodeChar_byte {byte : UInt8} (h : byte.toNat < 0x80) :
    String.utf8EncodeChar (Char.ofNat byte.toNat) = [byte] := by
  have hvalid : byte.toNat.isValidChar := by simp only [Nat.isValidChar]; omega
  have hfollowing : following byte.toNat = 0 := if_pos h
  rw [utf8EncodeChar_ofNat hvalid, first, hfollowing]
  simp [mark, continuation]

/-! ## Reading -/

/-- Whether reading succeeds, and with what, does not depend on the offsets. -/
theorem scan_ok_offset {done chars : List Char} {start next : Nat} {state : Option Pending}
    {bytes : Bytes} (h : scan done start next state bytes = .ok chars) (start' next' : Nat) :
    scan done start' next' state bytes = .ok chars := by
  -- The offsets are only carried along, so they are general in the induction.
  induction bytes generalizing done start next state start' next' with
  | nil =>
      cases state with
      | none => exact h
      | some p => cases h
  | cons byte rest ih =>
      cases state with
      | none =>
          simp only [scan] at h ⊢
          split at h
          · exact ih h _ _
          · exact ih h _ _
          · cases h
      | some p =>
          simp only [scan] at h ⊢
          split at h
          next hrange =>
            rw [if_pos hrange]
            split at h
            · exact ih h _ _
            · exact ih h _ _
          next => cases h

/-- A byte of an open sequence has to be in range. -/
private theorem scan_some_cons {done chars : List Char} {p : Pending} {byte : UInt8}
    {rest : Bytes} : scan done 0 0 (some p) (byte :: rest) = .ok chars ↔
      (p.low ≤ byte.toNat ∧ byte.toNat ≤ p.high) ∧
        match p.more with
        | 0 => scan (Char.ofNat (p.value * 64 + (byte.toNat - 0x80)) :: done) 0 0 none rest =
            .ok chars
        | more + 1 => scan done 0 0 (some ⟨0x80, 0xbf, more, p.value * 64 + (byte.toNat - 0x80)⟩)
            rest = .ok chars := by
  rw [scan]
  split
  next hrange =>
    rw [and_iff_right hrange]
    cases p.more with
    | zero => exact ⟨fun h => scan_ok_offset h 0 0, fun h => scan_ok_offset h _ _⟩
    | succ more => exact ⟨fun h => scan_ok_offset h 0 0, fun h => scan_ok_offset h _ _⟩
  next hrange => simp [hrange]

theorem ofNat_eq_iff {byte : UInt8} {n : Nat} (h : n < 256) :
    byte = UInt8.ofNat n ↔ byte.toNat = n := by
  rw [← UInt8.toNat_inj, UInt8.toNat_ofNat', Nat.mod_eq_of_lt h]

/-- A byte in the range of an open sequence adds its sextet to the bits at the top. -/
private theorem sextet_iff {byte : UInt8} {low high top value : Nat} (hlow : 0x80 ≤ low)
    (hhigh : high ≤ 0xbf) :
    (low ≤ byte.toNat ∧ byte.toNat ≤ high) ∧ value = top * 64 + (byte.toNat - 0x80) ↔
      (value / 64 = top ∧ low ≤ 0x80 + value % 64 ∧ 0x80 + value % 64 ≤ high) ∧
        byte = UInt8.ofNat (0x80 + value % 64) := by
  rw [ofNat_eq_iff (by omega)]
  omega

theorem continues_iff {low high more top value : Nat} :
    Continues ⟨low, high, more, top⟩ value ↔ value / 64 ^ more / 64 = top ∧
      low ≤ 0x80 + value / 64 ^ more % 64 ∧ 0x80 + value / 64 ^ more % 64 ≤ high := by
  rw [Nat.div_div_eq_div_mul, ← Nat.pow_succ]
  exact ⟨fun h => ⟨h.upper, h.low_le, h.le_high⟩, fun h => ⟨h.1, h.2.1, h.2.2⟩⟩

/-- Reading goes on in an open sequence as long as the encoding of some value that
continues it goes on, and behind that with that character. -/
theorem scan_some_iff {done chars : List Char} {p : Pending} (hlow : 0x80 ≤ p.low)
    (hhigh : p.high ≤ 0xbf) {bytes : Bytes} :
    scan done 0 0 (some p) bytes = .ok chars ↔
      ∃ value rest, Continues p value ∧ bytes = continuation (p.more + 1) value ++ rest ∧
        scan (Char.ofNat value :: done) 0 0 none rest = .ok chars := by
  obtain ⟨low, high, more, top⟩ := p
  simp only at hlow hhigh
  -- The induction is on the sextets that are open; each byte moves one of them to the top.
  induction more generalizing low high top bytes with
  | zero =>
      cases bytes with
      | nil => simp [scan, continuation]
      | cons byte rest =>
          simp only [scan_some_cons, continues_iff, continuation, Nat.pow_zero, Nat.div_one]
          constructor
          · rintro ⟨hrange, hscan⟩
            obtain ⟨hvalue, hbyte⟩ := (sextet_iff hlow hhigh).mp ⟨hrange, rfl⟩
            exact ⟨_, rest, hvalue, by rw [← hbyte]; rfl, hscan⟩
          · rintro ⟨value, rest', hvalue, hbytes, hscan⟩
            obtain ⟨hbyte, rfl⟩ := List.cons.inj hbytes
            obtain ⟨hrange, heq⟩ := (sextet_iff hlow hhigh).mpr ⟨hvalue, hbyte⟩
            rw [heq] at hscan
            exact ⟨hrange, hscan⟩
  | succ more ih =>
      cases bytes with
      | nil => simp [scan, continuation]
      | cons byte rest =>
          simp only [scan_some_cons, continues_iff]
          rw [ih _ _ _ (Nat.le_refl _) (Nat.le_refl _)]
          constructor
          · rintro ⟨hrange, value, rest', hinner, rfl, hscan⟩
            obtain ⟨hvalue, hbyte⟩ := (sextet_iff hlow hhigh).mp ⟨hrange, hinner.upper⟩
            exact ⟨value, rest', hvalue, by rw [hbyte, continuation]; rfl, hscan⟩
          · rintro ⟨value, rest', hvalue, hbytes, hscan⟩
            obtain ⟨hbyte, rfl⟩ := List.cons.inj hbytes
            obtain ⟨hrange, heq⟩ := (sextet_iff hlow hhigh).mpr ⟨hvalue, hbyte⟩
            refine ⟨hrange, value, rest', ⟨heq, ?_, ?_⟩, rfl, hscan⟩ <;> simp only <;> omega

/-! ## Texts -/

/-- Reading what a character is written as adds the character. -/
theorem scan_utf8EncodeChar {done chars : List Char} {c : Char} {rest : Bytes}
    (h : scan (c :: done) 0 0 none rest = .ok chars) :
    scan done 0 0 none (String.utf8EncodeChar c ++ rest) = .ok chars := by
  have hbyte : (UInt8.ofNat (first c.toNat)).toNat = first c.toNat :=
    (ofNat_eq_iff (first_lt (toNat_isValidChar c))).mp rfl
  rw [utf8EncodeChar_eq, List.cons_append, scan, hbyte]
  obtain ⟨hlead, hfollowing⟩ | ⟨p, hopens, hfollowing, hcontinues⟩ :=
    lead_first (toNat_isValidChar c)
  · rw [hlead, hfollowing, Char.ofNat_toNat]
    exact scan_ok_offset h _ _
  · rw [hopens.lead_eq, hfollowing]
    obtain ⟨hlow, hhigh⟩ := hopens.range
    have hscan := (scan_some_iff hlow hhigh).mpr
      ⟨_, rest, hcontinues, rfl, by rwa [Char.ofNat_toNat]⟩
    exact scan_ok_offset hscan _ _

theorem scan_flatMap (done text : List Char) :
    scan done 0 0 none (text.flatMap String.utf8EncodeChar) = .ok (done.reverse ++ text) := by
  induction text generalizing done with
  | nil => simp [scan]
  | cons c text ih =>
      rw [List.flatMap_cons]
      apply scan_utf8EncodeChar
      rw [ih, List.reverse_cons, List.append_assoc, List.singleton_append]

/-- A successful read of what is not empty takes the encoding of one character. -/
theorem exists_utf8EncodeChar_of_scan {done chars : List Char} {byte : UInt8} {rest : Bytes}
    (h : scan done 0 0 none (byte :: rest) = .ok chars) :
    ∃ c rest', byte :: rest = String.utf8EncodeChar c ++ rest' ∧
      rest'.length < (byte :: rest).length ∧ scan (c :: done) 0 0 none rest' = .ok chars := by
  rw [scan] at h
  obtain ⟨hbyte, hlead⟩ | ⟨p, hopens, hlead⟩ | hlead := lead_cases byte.toNat
  · rw [hlead] at h
    refine ⟨_, rest, ?_, Nat.lt_succ_self _, scan_ok_offset h 0 0⟩
    rw [utf8EncodeChar_byte hbyte, List.singleton_append]
  · rw [hlead] at h
    obtain ⟨hlow, hhigh⟩ := hopens.range
    obtain ⟨value, rest', hcontinues, rfl, hscan⟩ :=
      (scan_some_iff hlow hhigh).mp (scan_ok_offset h 0 0)
    obtain ⟨hvalid, hfollowing, hfirst⟩ := hopens.starts hcontinues
    refine ⟨Char.ofNat value, rest', ?_, ?_, hscan⟩
    · rw [utf8EncodeChar_ofNat hvalid, hfirst, hfollowing, UInt8.ofNat_toNat, List.cons_append]
    · simp only [List.length_cons, List.length_append]
      omega
  · rw [hlead] at h
    cases h

/-- What is read up to the end of the input are encodings of characters. -/
theorem exists_of_scan {done chars : List Char} {bytes : Bytes}
    (h : scan done 0 0 none bytes = .ok chars) :
    ∃ text, bytes = text.flatMap String.utf8EncodeChar ∧ chars = done.reverse ++ text := by
  -- A step takes a whole character, so the induction is on the number of bytes.
  induction hlength : bytes.length using Nat.strongRecOn generalizing done bytes with
  | ind length ih =>
      subst hlength
      cases bytes with
      | nil => exact ⟨[], rfl, by simpa [scan] using h.symm⟩
      | cons byte rest =>
          obtain ⟨c, rest', hbytes, hlt, hscan⟩ := exists_utf8EncodeChar_of_scan h
          obtain ⟨text, rfl, hchars⟩ := ih _ hlt hscan rfl
          refine ⟨c :: text, hbytes, ?_⟩
          rw [hchars, List.reverse_cons, List.append_assoc, List.singleton_append]

/-- **Reading undoes writing.** -/
theorem decode_eq_ok_iff {bytes : Bytes} {text : String} :
    decode bytes = .ok text ↔ bytes = encode text := by
  unfold decode encode
  constructor
  · intro h
    cases hscan : scan [] 0 0 none bytes with
    | error e => rw [hscan] at h; cases h
    | ok chars =>
        rw [hscan] at h
        cases h
        obtain ⟨text, hbytes, rfl⟩ := exists_of_scan hscan
        simpa using hbytes
  · rintro rfl
    rw [scan_flatMap]
    simp [Except.map]

end AmqpEnvelope.Utf8
