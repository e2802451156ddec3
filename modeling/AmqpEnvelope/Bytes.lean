/-!
# Byte strings

Bytes are kept as lists, so that a reader of a stream is a recursion on the
bytes it has not yet read.  This module holds the two numeric readings of a
byte string (most significant byte first) and the writer that undoes them.

* `BigEndian.toNat` reads an unsigned number of any width.
* `BigEndian.toInt` reads a two's complement number of any width.
* `BigEndian.ofNat` writes a number in a given width.

Only the writer knows a width: a reading takes the width from its argument, so
one reading serves the compact and the full encodings of a number alike.
-/

namespace AmqpEnvelope

/-- A byte string. -/
abbrev Bytes := List UInt8

namespace BigEndian

/-- Unsigned value of a byte string, most significant byte first. -/
def toNat (bytes : Bytes) : Nat :=
  bytes.foldl (fun value b => value * 256 + b.toNat) 0

/-- How many numbers there are in a width. -/
def span (width : Nat) : Nat := Nat.pow 256 width

theorem span_succ (width : Nat) : span (width + 1) = 256 * span width :=
  Nat.mul_comm (Nat.pow 256 width) 256

theorem span_le {m n : Nat} (h : m ≤ n) : span m ≤ span n :=
  Nat.pow_le_pow_right (by decide) h

/-- Two's complement value of a byte string: the top bit of the first byte
counts negatively. -/
def toInt (bytes : Bytes) : Int :=
  if 2 * toNat bytes < span bytes.length then toNat bytes
  else (toNat bytes : Int) - span bytes.length

/-- The low `width` bytes of a number, most significant byte first. -/
def ofNat : (width : Nat) → (value : Nat) → Bytes
  | 0, _ => []
  | width + 1, value => ofNat width (value / 256) ++ [UInt8.ofNat value]

theorem length_ofNat (width value : Nat) : (ofNat width value).length = width := by
  induction width generalizing value with
  | zero => rfl
  | succ width ih => simp [ofNat, ih]

theorem toNat_append_singleton (bytes : Bytes) (b : UInt8) :
    toNat (bytes ++ [b]) = toNat bytes * 256 + b.toNat := by
  simp [toNat]

/-- Writing in a width keeps the value modulo what that width spans. -/
theorem toNat_ofNat (width value : Nat) :
    toNat (ofNat width value) = value % span width := by
  induction width generalizing value with
  | zero => simp [ofNat, toNat, span, Nat.mod_one]
  | succ width ih =>
      have hbyte : (UInt8.ofNat value).toNat = value % 256 := by simp
      rw [ofNat, toNat_append_singleton, ih, hbyte, span_succ, Nat.mod_mul]
      omega

theorem toNat_ofNat_of_lt {width value : Nat} (h : value < span width) :
    toNat (ofNat width value) = value := by
  rw [toNat_ofNat, Nat.mod_eq_of_lt h]

theorem foldl_eq (bytes : Bytes) (value : Nat) :
    bytes.foldl (fun value b => value * 256 + b.toNat) value =
      value * span bytes.length + toNat bytes := by
  induction bytes generalizing value with
  | nil => simp [span, toNat]
  | cons c rest ih =>
      have hrest : toNat (c :: rest) = c.toNat * span rest.length + toNat rest := by
        change List.foldl _ (0 * 256 + c.toNat) rest = _
        rw [ih, Nat.zero_mul, Nat.zero_add]
      rw [List.foldl_cons, ih, hrest, List.length_cons, span_succ, Nat.add_mul, Nat.mul_assoc,
        Nat.add_assoc]

theorem toNat_cons (b : UInt8) (bytes : Bytes) :
    toNat (b :: bytes) = b.toNat * span bytes.length + toNat bytes := by
  rw [toNat, List.foldl_cons, foldl_eq, Nat.zero_mul, Nat.zero_add]

/-- A width bounds what is read from it. -/
theorem toNat_lt_span (bytes : Bytes) : toNat bytes < span bytes.length := by
  induction bytes with
  | nil => exact Nat.zero_lt_one
  | cons b rest ih =>
      have hb := b.toNat_lt
      have hmul : (b.toNat + 1) * span rest.length ≤ 256 * span rest.length :=
        Nat.mul_le_mul_right _ hb
      rw [toNat_cons, List.length_cons, span_succ]
      rw [Nat.add_mul, Nat.one_mul] at hmul
      omega

/-- Half of what a width spans is negative. -/
theorem toInt_bounds (bytes : Bytes) :
    -(span bytes.length : Int) ≤ 2 * toInt bytes ∧ 2 * toInt bytes < span bytes.length := by
  have hlt := toNat_lt_span bytes
  unfold toInt
  split <;> omega

end BigEndian

end AmqpEnvelope
