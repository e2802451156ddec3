import AmqpEnvelope.Bytes

/-!
# UTF-8

Reading of UTF-8 text one byte at a time, with the position of the first byte
that belongs to no valid sequence.

A lead byte fixes how many continuation bytes follow and the range of the first
of them, which is how overlong forms, surrogates and values past the last code
point are refused.  The reader therefore carries a `Pending` sequence instead of
looking ahead, and a fault is reported at the start of the sequence in which it
occurs, also when the input ends inside one.
-/

namespace AmqpEnvelope.Utf8

/-- A sequence whose lead byte has been read. -/
structure Pending where
  /-- Smallest byte that may come next. -/
  low : Nat
  /-- Largest byte that may come next. -/
  high : Nat
  /-- Continuation bytes still to come after the next one. -/
  more : Nat
  /-- Value of the bits read so far. -/
  value : Nat
deriving DecidableEq, Repr

/-- What a byte at the start of a sequence announces. -/
inductive Lead where
  /-- The byte is a character of its own. -/
  | single (c : Char)
  /-- The byte opens a sequence of two to four bytes. -/
  | opens (p : Pending)
  /-- No sequence starts with the byte. -/
  | invalid
deriving DecidableEq, Repr

/-- Classify a byte at the start of a sequence. -/
def lead (byte : Nat) : Lead :=
  if byte < 0x80 then .single (Char.ofNat byte)
  else if byte < 0xc2 then .invalid
  else if byte < 0xe0 then .opens ⟨0x80, 0xbf, 0, byte - 0xc0⟩
  else if byte = 0xe0 then .opens ⟨0xa0, 0xbf, 1, 0⟩
  else if byte = 0xed then .opens ⟨0x80, 0x9f, 1, 0xd⟩
  else if byte < 0xf0 then .opens ⟨0x80, 0xbf, 1, byte - 0xe0⟩
  else if byte = 0xf0 then .opens ⟨0x90, 0xbf, 2, 0⟩
  else if byte < 0xf4 then .opens ⟨0x80, 0xbf, 2, byte - 0xf0⟩
  else if byte = 0xf4 then .opens ⟨0x80, 0x8f, 2, 4⟩
  else .invalid

/-- Read on from a state: the characters read so far in reverse, the offset at
which the current sequence starts, the offset of the next byte, and the sequence
that is open.  The error is the offset of the first sequence that is not valid. -/
def scan (done : List Char) (start next : Nat) : Option Pending → Bytes → Except Nat (List Char)
  | none, [] => .ok done.reverse
  | some _, [] => .error start
  | none, b :: rest =>
      match lead b.toNat with
      | .single c => scan (c :: done) (next + 1) (next + 1) none rest
      | .opens p => scan done start (next + 1) (some p) rest
      | .invalid => .error start
  | some p, b :: rest =>
      if p.low ≤ b.toNat ∧ b.toNat ≤ p.high then
        match p.more with
        | 0 => scan (Char.ofNat (p.value * 64 + (b.toNat - 0x80)) :: done)
            (next + 1) (next + 1) none rest
        | more + 1 => scan done start (next + 1)
            (some ⟨0x80, 0xbf, more, p.value * 64 + (b.toNat - 0x80)⟩) rest
      else .error start

/-- The text that a byte string encodes, or the length of the longest prefix
that is valid UTF-8. -/
def decode (bytes : Bytes) : Except Nat String :=
  (scan [] 0 0 none bytes).map String.ofList

/-- The UTF-8 bytes of a text. -/
def encode (text : String) : Bytes :=
  text.toList.flatMap String.utf8EncodeChar

end AmqpEnvelope.Utf8
