import AmqpEnvelope.Cursor.Basic
import AmqpEnvelope.Decimal.Shortest

/-!
# Primitive values

One reader for each primitive type.  A type has one full encoding and possibly compact
ones, and a reader accepts those and nothing else: no reader widens the value of
another type.

All encodings of a type share one interpretation of their payload.  The payload is a
big-endian number whose width the format code gives, so `uint`, `smalluint` and `uint0`
are the same number read from four, one and no bytes, and a compact signed number is
extended by its sign because its payload is read in two's complement of its own width.
-/

namespace AmqpEnvelope

/-- A single-precision number by its bits. -/
structure Float32Bits where
  bits : UInt32
deriving DecidableEq, Repr

/-- The shortest decimal that reads back, without an exponent. -/
def Float32Bits.text (f : Float32Bits) : String := Decimal.binary32.text f.bits.toNat

/-- A double-precision number by its bits. -/
structure Float64Bits where
  bits : UInt64
deriving DecidableEq, Repr

/-- The shortest decimal that reads back, without an exponent. -/
def Float64Bits.text (f : Float64Bits) : String := Decimal.binary64.text f.bits.toNat

namespace Primitive

/-- The values of a primitive type.  A timestamp counts milliseconds since the Unix
epoch; a UUID is its sixteen bytes. -/
@[reducible] def Carrier : Primitive → Type
  | null => Unit
  | boolean => Bool
  | ubyte => UInt8
  | ushort => UInt16
  | uint => UInt32
  | ulong => UInt64
  | byte => Int8
  | short => Int16
  | int => Int32
  | long => Int64
  | float => Float32Bits
  | double => Float64Bits
  | timestamp => Int64
  | char => Char
  | uuid => Bytes
  | binary => Bytes
  | string => String
  | symbol => String

/-- The character of a code point, unless it is a surrogate or past the last one. -/
def scalar? (value : Nat) : Option Char :=
  if h : value.isValidChar then some (Char.ofNatAux value h) else none

/-- The text of a payload. -/
def utf8 (what : String) (bytes : Bytes) (offset : Nat) : Except DecodeError String :=
  match Utf8.decode bytes with
  | .ok text => .ok text
  | .error validUpTo => .error (.mismatch (.invalidUtf8 what validUpTo) offset)

/-- The value of a payload that stands behind the given format code at `offset`. -/
def interpret (p : Primitive) (format : FormatCode) (payload : Bytes) (offset : Nat) :
    Except DecodeError p.Carrier :=
  match p with
  | null => .ok ()
  | boolean =>
      match format with
      | .boolTrue => .ok true
      | .boolFalse => .ok false
      | _ =>
          let byte := payload.headD 0
          if byte = 0 then .ok false
          else if byte = 1 then .ok true
          else .error (.mismatch (.booleanByte byte) (offset + 1))
  | ubyte => .ok (UInt8.ofNat (BigEndian.toNat payload))
  | ushort => .ok (UInt16.ofNat (BigEndian.toNat payload))
  | uint => .ok (UInt32.ofNat (BigEndian.toNat payload))
  | ulong => .ok (UInt64.ofNat (BigEndian.toNat payload))
  | byte => .ok (Int8.ofInt (BigEndian.toInt payload))
  | short => .ok (Int16.ofInt (BigEndian.toInt payload))
  | int => .ok (Int32.ofInt (BigEndian.toInt payload))
  | long => .ok (Int64.ofInt (BigEndian.toInt payload))
  | float => .ok ⟨UInt32.ofNat (BigEndian.toNat payload)⟩
  | double => .ok ⟨UInt64.ofNat (BigEndian.toNat payload)⟩
  | timestamp => .ok (Int64.ofInt (BigEndian.toInt payload))
  | char =>
      match scalar? (BigEndian.toNat payload) with
      | some c => .ok c
      | none => .error (.mismatch (.scalarValue (BigEndian.toNat payload)) (offset + 1))
  | uuid => .ok payload
  | binary => .ok payload
  | string => utf8 "string" payload offset
  | symbol => utf8 "symbol" payload offset

end Primitive

/-- A primitive value together with its type. -/
structure Scalar where
  type : Primitive
  value : type.Carrier

namespace Scalar

/-- Two scalars are equal when type and value are.

Numbers in floating point are kept as bits and compared by them.  As numbers the two zeroes would
be equal, and what is no number would not be equal to itself.  The standard types have no such
fields; for a record that has one this is a limit. -/
def same (a b : Scalar) : Bool :=
  match a, b with
  | ⟨.null, _⟩, ⟨.null, _⟩ => true
  | ⟨.boolean, x⟩, ⟨.boolean, y⟩ => x == y
  | ⟨.ubyte, x⟩, ⟨.ubyte, y⟩ => x == y
  | ⟨.ushort, x⟩, ⟨.ushort, y⟩ => x == y
  | ⟨.uint, x⟩, ⟨.uint, y⟩ => x == y
  | ⟨.ulong, x⟩, ⟨.ulong, y⟩ => x == y
  | ⟨.byte, x⟩, ⟨.byte, y⟩ => x == y
  | ⟨.short, x⟩, ⟨.short, y⟩ => x == y
  | ⟨.int, x⟩, ⟨.int, y⟩ => x == y
  | ⟨.long, x⟩, ⟨.long, y⟩ => x == y
  | ⟨.float, x⟩, ⟨.float, y⟩ => x == y
  | ⟨.double, x⟩, ⟨.double, y⟩ => x == y
  | ⟨.timestamp, x⟩, ⟨.timestamp, y⟩ => x == y
  | ⟨.char, x⟩, ⟨.char, y⟩ => x == y
  | ⟨.uuid, x⟩, ⟨.uuid, y⟩ => x == y
  | ⟨.binary, x⟩, ⟨.binary, y⟩ => x == y
  | ⟨.string, x⟩, ⟨.string, y⟩ => x == y
  | ⟨.symbol, x⟩, ⟨.symbol, y⟩ => x == y
  | _, _ => false

end Scalar

namespace Cursor

/-- The bytes that belong to a value behind its format code, without the length
prefix.  Behind the marker of a described value stand other values, and no payload. -/
def payload (category : WidthCategory) (what : String) : Decoding Bytes :=
  match category with
  | .described => return []
  | .fixed size => take size what
  | .variable width | .compound width | .array width => do
      let length ← number width what
      take length what

/-- The value of a primitive whose format code has been read at `offset`. -/
def primitiveBody (p : Primitive) (format : FormatCode) (offset : Nat) :
    Decoding p.Carrier := do
  let bytes ← payload format.category p.name
  match p.interpret format bytes offset with
  | .ok value => return value
  | .error e => throw e

/-- Read the next value, which has to be of the given primitive type. -/
def read (p : Primitive) : Decoding p.Carrier := do
  let (format, offset) ← beginValue p.name
  if format.primitive? = some p then primitiveBody p format offset
  else wrongFormat p.name format offset

/-- Read the next value of a primitive type and keep its type. -/
def readScalar (p : Primitive) : Decoding Scalar := do
  return ⟨p, ← read p⟩

end Cursor

end AmqpEnvelope
