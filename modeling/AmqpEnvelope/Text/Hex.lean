import AmqpEnvelope.Bytes

/-!
# Hexadecimal text

Lower-case hexadecimal spellings of numbers and byte strings, in the three
shapes that messages and listings use: a fixed number of digits, the fewest
digits, and two digits for each byte.
-/

namespace AmqpEnvelope.Hex

/-- The lower-case digit of a number below sixteen. -/
def digit (n : Nat) : Char := Nat.digitChar n

/-- The last `width` hexadecimal digits of a number. -/
def digits : (width : Nat) → (value : Nat) → List Char
  | 0, _ => []
  | width + 1, value => digits width (value / 16) ++ [digit (value % 16)]

/-- At least `width` hexadecimal digits, padded with zeros on the left. -/
def padded (width value : Nat) : String :=
  let plain := Nat.toDigits 16 value
  String.ofList (List.replicate (width - plain.length) '0' ++ plain)

/-- The prefixed spelling `0x…` of a number with at least `width` digits. -/
def number (width value : Nat) : String := "0x" ++ padded width value

/-- Two digits for each byte. -/
def encode (bytes : Bytes) : String :=
  String.ofList (bytes.flatMap fun b => digits 2 b.toNat)

end AmqpEnvelope.Hex
