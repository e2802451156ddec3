import AmqpEnvelope.Text.Hex

/-!
# Format codes

Every AMQP value starts with a format code.  The high half of the code fixes how
many bytes belong to the value: none, a fixed number, or as many as a length
prefix of one or four bytes says.  The code as a whole fixes the type, and several
codes may encode one type in forms of different width.

Main statements: `ofByte?_eq_some_iff` says that a byte is assigned exactly when it
is the byte of a code, and then of that code only.
-/

namespace AmqpEnvelope

/-- The types whose values are read by one primitive reader each. -/
inductive Primitive where
  | null | boolean
  | ubyte | ushort | uint | ulong
  | byte | short | int | long
  | float | double
  | timestamp | char | uuid
  | binary | string | symbol
deriving DecidableEq, Repr

namespace Primitive

/-- The name of the type in messages and listings. -/
def name : Primitive → String
  | null => "null"
  | boolean => "boolean"
  | ubyte => "ubyte"
  | ushort => "ushort"
  | uint => "uint"
  | ulong => "ulong"
  | byte => "byte"
  | short => "short"
  | int => "int"
  | long => "long"
  | float => "float"
  | double => "double"
  | timestamp => "timestamp"
  | char => "char"
  | uuid => "uuid"
  | binary => "binary"
  | string => "string"
  | symbol => "symbol"

end Primitive

/-- How the extent of a value follows from its format code. -/
inductive WidthCategory where
  /-- A descriptor value and a body value follow. -/
  | described
  /-- A fixed number of payload bytes follows. -/
  | fixed (size : Nat)
  /-- A length prefix of the given width and that many bytes follow. -/
  | variable (prefixWidth : Nat)
  /-- A list or map: a size prefix of the given width and that many bytes follow. -/
  | compound (prefixWidth : Nat)
  /-- An array: a size prefix of the given width and that many bytes follow. -/
  | array (prefixWidth : Nat)
deriving DecidableEq, Repr

/-- The assigned format codes. -/
inductive FormatCode where
  | described
  | null | boolTrue | boolFalse | uint0 | ulong0 | list0
  | ubyte | byte | smallUint | smallUlong | smallInt | smallLong | boolean
  | ushort | short
  | uint | int | float | char | decimal32
  | ulong | long | double | timestamp | decimal64
  | decimal128 | uuid
  | binary8 | string8 | symbol8
  | binary32 | string32 | symbol32
  | list8 | map8
  | list32 | map32
  | array8 | array32
deriving DecidableEq, Repr

namespace FormatCode

/-- The byte of a code. -/
def toByte : FormatCode → UInt8
  | described => 0x00
  | null => 0x40
  | boolTrue => 0x41
  | boolFalse => 0x42
  | uint0 => 0x43
  | ulong0 => 0x44
  | list0 => 0x45
  | ubyte => 0x50
  | byte => 0x51
  | smallUint => 0x52
  | smallUlong => 0x53
  | smallInt => 0x54
  | smallLong => 0x55
  | boolean => 0x56
  | ushort => 0x60
  | short => 0x61
  | uint => 0x70
  | int => 0x71
  | float => 0x72
  | char => 0x73
  | decimal32 => 0x74
  | ulong => 0x80
  | long => 0x81
  | double => 0x82
  | timestamp => 0x83
  | decimal64 => 0x84
  | decimal128 => 0x94
  | uuid => 0x98
  | binary8 => 0xa0
  | string8 => 0xa1
  | symbol8 => 0xa3
  | binary32 => 0xb0
  | string32 => 0xb1
  | symbol32 => 0xb3
  | list8 => 0xc0
  | map8 => 0xc1
  | list32 => 0xd0
  | map32 => 0xd1
  | array8 => 0xe0
  | array32 => 0xf0

/-- The code of a byte, if one is assigned to it. -/
def ofByte? (byte : UInt8) : Option FormatCode :=
  match byte.toNat with
  | 0x00 => some described
  | 0x40 => some null
  | 0x41 => some boolTrue
  | 0x42 => some boolFalse
  | 0x43 => some uint0
  | 0x44 => some ulong0
  | 0x45 => some list0
  | 0x50 => some ubyte
  | 0x51 => some FormatCode.byte
  | 0x52 => some smallUint
  | 0x53 => some smallUlong
  | 0x54 => some smallInt
  | 0x55 => some smallLong
  | 0x56 => some boolean
  | 0x60 => some ushort
  | 0x61 => some short
  | 0x70 => some uint
  | 0x71 => some int
  | 0x72 => some float
  | 0x73 => some char
  | 0x74 => some decimal32
  | 0x80 => some ulong
  | 0x81 => some long
  | 0x82 => some double
  | 0x83 => some timestamp
  | 0x84 => some decimal64
  | 0x94 => some decimal128
  | 0x98 => some uuid
  | 0xa0 => some binary8
  | 0xa1 => some string8
  | 0xa3 => some symbol8
  | 0xb0 => some binary32
  | 0xb1 => some string32
  | 0xb3 => some symbol32
  | 0xc0 => some list8
  | 0xc1 => some map8
  | 0xd0 => some list32
  | 0xd1 => some map32
  | 0xe0 => some array8
  | 0xf0 => some array32
  | _ => none

@[simp] theorem ofByte?_toByte (format : FormatCode) : ofByte? format.toByte = some format := by
  cases format <;> rfl

theorem toByte_of_ofByte? {byte : UInt8} {format : FormatCode}
    (h : ofByte? byte = some format) : byte = format.toByte := by
  apply UInt8.toNat_inj.mp
  unfold ofByte? at h
  split at h <;> first
    | contradiction
    | (obtain rfl := Option.some.inj h; assumption)

theorem ofByte?_eq_some_iff {byte : UInt8} {format : FormatCode} :
    ofByte? byte = some format ↔ byte = format.toByte :=
  ⟨toByte_of_ofByte?, fun h => h ▸ ofByte?_toByte format⟩

/-- The primitive type a code encodes, if it encodes one. -/
def primitive? : FormatCode → Option Primitive
  | null => some .null
  | boolTrue | boolFalse | boolean => some .boolean
  | ubyte => some .ubyte
  | ushort => some .ushort
  | uint0 | smallUint | uint => some .uint
  | ulong0 | smallUlong | ulong => some .ulong
  | byte => some .byte
  | short => some .short
  | smallInt | int => some .int
  | smallLong | long => some .long
  | float => some .float
  | double => some .double
  | timestamp => some .timestamp
  | char => some .char
  | uuid => some .uuid
  | binary8 | binary32 => some .binary
  | string8 | string32 => some .string
  | symbol8 | symbol32 => some .symbol
  | described | list0 | list8 | list32 | map8 | map32 | array8 | array32
  | decimal32 | decimal64 | decimal128 => none

/-- The name of the encoded type. -/
def name (format : FormatCode) : String :=
  match format.primitive?, format with
  | some p, _ => p.name
  | none, described => "described"
  | none, decimal32 => "decimal32"
  | none, decimal64 => "decimal64"
  | none, decimal128 => "decimal128"
  | none, map8 | none, map32 => "map"
  | none, array8 | none, array32 => "array"
  | none, _ => "list"

/-- The size class, which the high half of the code determines. -/
def category (format : FormatCode) : WidthCategory :=
  match format.toByte.toNat / 16 with
  | 0x0 => .described
  | 0x4 => .fixed 0
  | 0x5 => .fixed 1
  | 0x6 => .fixed 2
  | 0x7 => .fixed 4
  | 0x8 => .fixed 8
  | 0x9 => .fixed 16
  | 0xa => .variable 1
  | 0xb => .variable 4
  | 0xc => .compound 1
  | 0xd => .compound 4
  | 0xe => .array 1
  | _ => .array 4

/-- The name with the code behind it. -/
def text (format : FormatCode) : String :=
  s!"{format.name} ({Hex.number 2 format.toByte.toNat})"

end FormatCode

/-- The name of whatever a byte stands for at the start of a value. -/
def formatText (byte : UInt8) : String :=
  match FormatCode.ofByte? byte with
  | some format => format.text
  | none => s!"unassigned format code {Hex.number 2 byte.toNat}"

end AmqpEnvelope
