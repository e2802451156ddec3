import AmqpEnvelope.Bytes

/-!
# Base64

The standard alphabet with canonical padding: every group of three bytes is
written as four symbols, a last group of one or two bytes is padded with `=`, and
the bits of the last symbol that carry no data are zero.  Under these rules each
byte string has exactly one written form, so `decode` accepts an input only if it
is what `encode` writes.

A fault names the first byte that cannot stand where it stands.  A padding byte
stands only in the third or fourth place of the last group and only before other
padding.
-/

namespace AmqpEnvelope.Base64

/-- Why a byte string is not Base64. -/
inductive Fault where
  /-- The byte at this offset cannot stand there. -/
  | invalidByte (offset : Nat) (byte : UInt8)
  /-- The last symbol carries bits that belong to no byte. -/
  | invalidLastSymbol (offset : Nat) (byte : UInt8)
  /-- The input ends inside a group of four. -/
  | invalidPadding
deriving DecidableEq, Repr

/-- The wording of a fault. -/
def Fault.message : Fault → String
  | .invalidByte offset byte => s!"Invalid byte {byte}, offset {offset}."
  | .invalidLastSymbol offset byte => s!"Invalid last symbol {byte}, offset {offset}."
  | .invalidPadding => "Invalid padding"

/-- The padding byte `=`. -/
def pad : UInt8 := 0x3d

/-- The symbol of a six-bit value. -/
def symbol (value : Nat) : UInt8 :=
  if value < 26 then UInt8.ofNat (0x41 + value)
  else if value < 52 then UInt8.ofNat (0x61 + (value - 26))
  else if value < 62 then UInt8.ofNat (0x30 + (value - 52))
  else if value = 62 then 0x2b
  else 0x2f

/-- The six-bit value of a symbol; the padding byte is no symbol. -/
def sextet? (byte : UInt8) : Option Nat :=
  let b := byte.toNat
  if 0x41 ≤ b ∧ b ≤ 0x5a then some (b - 0x41)
  else if 0x61 ≤ b ∧ b ≤ 0x7a then some (b - 0x61 + 26)
  else if 0x30 ≤ b ∧ b ≤ 0x39 then some (b - 0x30 + 52)
  else if b = 0x2b then some 62
  else if b = 0x2f then some 63
  else none

/-- Write a byte string. -/
def encode : Bytes → Bytes
  | [] => []
  | [a] =>
      let x := a.toNat
      [symbol (x / 4), symbol (x % 4 * 16), pad, pad]
  | [a, b] =>
      let x := a.toNat
      let y := b.toNat
      [symbol (x / 4), symbol (x % 4 * 16 + y / 16), symbol (y % 16 * 4), pad]
  | a :: b :: c :: rest =>
      let x := a.toNat
      let y := b.toNat
      let z := c.toNat
      symbol (x / 4) :: symbol (x % 4 * 16 + y / 16) :: symbol (y % 16 * 4 + z / 64) ::
        symbol (z % 64) :: encode rest

/-- The value of the byte at an offset, which has to be a symbol. -/
def symbolAt (offset : Nat) (byte : UInt8) : Except Fault Nat :=
  match sextet? byte with
  | some value => .ok value
  | none => .error (.invalidByte offset byte)

/-- The three bytes that four symbols carry. -/
def joined (w x y z : Nat) : Bytes :=
  [UInt8.ofNat (w * 4 + x / 16), UInt8.ofNat (x % 16 * 16 + y / 4), UInt8.ofNat (y % 4 * 64 + z)]

/-- The last group, the only one that may be padded. -/
def lastGroup (offset : Nat) (a b c d : UInt8) : Except Fault Bytes := do
  let w ← symbolAt offset a
  let x ← symbolAt (offset + 1) b
  if c = pad then
    if d = pad then
      if x % 16 = 0 then return [UInt8.ofNat (w * 4 + x / 16)]
      else throw (.invalidLastSymbol (offset + 1) b)
    else throw (.invalidByte (offset + 2) c)
  else
    let y ← symbolAt (offset + 2) c
    if d = pad then
      if y % 4 = 0 then return [UInt8.ofNat (w * 4 + x / 16), UInt8.ofNat (x % 16 * 16 + y / 4)]
      else throw (.invalidLastSymbol (offset + 2) c)
    else
      let z ← symbolAt (offset + 3) d
      return joined w x y z

/-- Read from a group boundary at the given offset. -/
def decodeFrom (offset : Nat) : Bytes → Except Fault Bytes
  | [] => .ok []
  | [a, b, c, d] => lastGroup offset a b c d
  | a :: b :: c :: d :: rest => do
      let w ← symbolAt offset a
      let x ← symbolAt (offset + 1) b
      let y ← symbolAt (offset + 2) c
      let z ← symbolAt (offset + 3) d
      let tail ← decodeFrom (offset + 4) rest
      return joined w x y z ++ tail
  | _ => .error .invalidPadding

/-- Read a byte string back. -/
def decode (bytes : Bytes) : Except Fault Bytes := decodeFrom 0 bytes

/-- The written form as a text. -/
def encodeText (bytes : Bytes) : String :=
  String.ofList ((encode bytes).map fun b => Char.ofNat b.toNat)

end AmqpEnvelope.Base64
