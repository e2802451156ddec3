import AmqpEnvelope.Cursor.Container
import AmqpEnvelope.Rendering.Basic
import AmqpEnvelope.Transaction

/-!
# Renderings of plain data

How primitives, descriptors and the standard values are rendered.  Numbers of more than 32 bits
are shown as text, and so is everything that consists of bytes.  A number in floating point is
shown by its bits and by its shortest decimal text, so no two of them look alike.
-/

namespace AmqpEnvelope

/-! ## Primitives and cursors -/

/-- The rendering of a primitive value. -/
def Scalar.rendering : Scalar → Rendering
  | ⟨.null, _⟩ => .null
  | ⟨.boolean, b⟩ => .flag b
  | ⟨.ubyte, n⟩ => .number n.toNat
  | ⟨.ushort, n⟩ => .number n.toNat
  | ⟨.uint, n⟩ => .number n.toNat
  | ⟨.ulong, n⟩ => .wide n.toNat
  | ⟨.byte, n⟩ => .number n.toInt
  | ⟨.short, n⟩ => .number n.toInt
  | ⟨.int, n⟩ => .number n.toInt
  | ⟨.long, n⟩ => .wide n.toInt
  | ⟨.float, f⟩ => .list [.text (Hex.padded 8 f.bits.toNat), .text f.text]
  | ⟨.double, f⟩ => .list [.text (Hex.padded 16 f.bits.toNat), .text f.text]
  | ⟨.timestamp, n⟩ => .wide n.toInt
  | ⟨.char, c⟩ => .number c.toNat
  | ⟨.uuid, bytes⟩ => .bytes bytes
  | ⟨.binary, bytes⟩ => .bytes bytes
  | ⟨.string, text⟩ => .text text
  | ⟨.symbol, text⟩ => .text text

/-- The word for the way in which a descriptor names a type. -/
def Descriptor.form : Descriptor → String
  | symbol _ => "symbol"
  | fingerprint _ => "fingerprint"
  | code _ => "code"

/-- The rendering of a descriptor. -/
def Descriptor.rendering (d : Descriptor) : Rendering := .list [.text d.form, .text d.text]

/-- The word for the way in which an encoded descriptor names a type. -/
def RawDescriptor.form : RawDescriptor → String
  | symbol _ => "symbol"
  | code _ => "code"

/-- The rendering of an encoded descriptor. -/
def RawDescriptor.rendering (d : RawDescriptor) : Rendering := .list [.text d.form, .text d.text]

/-- The rendering of the beginning of a described value. -/
def Opening.rendering (o : Opening) : Rendering :=
  .parts [("raw", o.raw.rendering), ("offset", .natural o.offset),
    ("descriptor", o.descriptor.rendering)]

/-- The rendering of the bounds of a cursor. -/
def Limits.rendering (l : Limits) : Rendering :=
  .list [.wide l.maxDepth, .wide l.maxCollectionLength]

/-! ## Standard values -/

/-- The rendering of an instant, with its nanoseconds since the epoch. -/
def Instant.rendering (t : Instant) : Rendering :=
  .parts [("epoch_seconds", .wide t.epochSeconds.toInt), ("nanos", .number t.nanos.toInt),
    ("unix_nanos", .wide t.unixNanos)]

/-- The rendering of a date. -/
def LocalDate.rendering (d : LocalDate) : Rendering :=
  .parts [("year", .natural d.year.toNat), ("month", .natural d.month.toNat),
    ("day", .natural d.day.toNat)]

/-- The rendering of a duration. -/
def Duration.rendering (d : Duration) : Rendering :=
  .parts [("seconds", .wide d.seconds.toNat), ("nanos", .natural d.nanos.toNat)]

/-- The rendering of a currency. -/
def Currency.rendering (c : Currency) : Rendering := .parts [("code", .text c.code)]

/-- The rendering of a class name. -/
def ClassName.rendering (c : ClassName) : Rendering := .parts [("name", .text c.name)]

/-- The rendering of a public key. -/
def PublicKey.rendering (k : PublicKey) : Rendering := .parts [("x509", .bytes k.x509)]

/-- The rendering of a byte sequence. -/
def ByteSequence.rendering (b : ByteSequence) : Rendering := .bytes b.bytes

/-- The rendering of a nested stream. -/
def SerializedBytes.rendering (s : SerializedBytes) : Rendering :=
  .parts [("bytes", .bytes s.bytes)]

/-- The rendering of a salt. -/
def PrivacySalt.rendering (s : PrivacySalt) : Rendering := .bytes s.bytes

/-- The rendering of signature metadata. -/
def SignatureMetadata.rendering (m : SignatureMetadata) : Rendering :=
  .parts [("platform", .number m.platformVersion.toInt),
    ("scheme", .number m.schemeNumber.toInt)]

/-! ## Transactions -/

/-- The rendering of a list of components. -/
def ByteSequence.listRendering (components : List ByteSequence) : Rendering :=
  .list (components.map ByteSequence.rendering)

/-- The rendering of a component group. -/
def ComponentGroup.rendering (g : ComponentGroup) : Rendering :=
  .parts [("index", .number g.index.toInt),
    ("kind", .orNull (fun kind => .text kind.name) g.kind?),
    ("len", .natural g.components.length), ("empty", .flag g.components.isEmpty),
    ("components", ByteSequence.listRendering g.components)]

/-- The rendering of a wire transaction, with its groups in the order of the hash tree and what
it has of each kind. -/
def WireTransaction.rendering (w : WireTransaction) : Rendering :=
  .parts [("groups", .list (w.groups.map ComponentGroup.rendering)),
    ("salt", w.salt.rendering),
    ("ordinals", .list (w.ordinals.map Rendering.natural)),
    ("ordered", .list (w.orderedGroups.map fun (kind, components) =>
      .list [.text kind.text, ByteSequence.listRendering components])),
    ("count", .natural w.componentCount),
    ("inputs", .natural w.inputs.length),
    ("outputs", .natural w.outputs.length),
    ("present", .list (GroupKind.all.map fun kind =>
      .list [.flag (w.group? kind).isSome, .natural (w.components kind).length]))]

end AmqpEnvelope
