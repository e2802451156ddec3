import AmqpEnvelope.Text.Base64
import AmqpEnvelope.Text.Hex
import AmqpEnvelope.Text.Quoted
import AmqpEnvelope.Text.Utf8

/-!
# Type descriptors

A composite names its type by a descriptor: a symbol or a numeric code.  A symbol
in the namespace `net.corda:` carries either a readable type name or the Base64
form of a sixteen-byte schema fingerprint.

`Descriptor` is the key under which all spellings of one type meet: the namespace
is removed, and a namespaced fingerprint is kept as its bytes.  A name without the
namespace is always a name, also when it looks like a fingerprint.

Descriptors are ordered by `Descriptor.key`: symbols by code points, then
fingerprints by bytes, then codes.
-/

namespace AmqpEnvelope

/-- The namespace of descriptor symbols. -/
def symbolNamespace : String := "net.corda:"

/-- The text behind the namespace, if the text starts with it. -/
def stripNamespace? (text : String) : Option String :=
  (symbolNamespace.toList.isPrefixOf? text.toList).map String.ofList

/-- The sixteen bytes that identify a schema. -/
structure Fingerprint where
  bytes : Bytes
  length_eq : bytes.length = 16
deriving DecidableEq

namespace Fingerprint

/-- Why a text is not a fingerprint. -/
inductive Fault where
  | textLength (length : Nat)
  | base64 (fault : Base64.Fault)
  | size (count : Nat)
deriving DecidableEq, Repr

/-- The wording of a fault. -/
def Fault.message : Fault → String
  | .textLength length => s!"expected 24 base64 characters, got {length}"
  | .base64 fault => fault.message
  | .size count => s!"decodes to {count} bytes, expected 16"

/-- Read the Base64 form of a fingerprint. -/
def ofBase64 (text : String) : Except Fault Fingerprint :=
  let bytes := Utf8.encode text
  if bytes.length = 24 then
    match Base64.decode bytes with
    | .ok decoded =>
        if h : decoded.length = 16 then .ok ⟨decoded, h⟩ else .error (.size decoded.length)
    | .error fault => .error (.base64 fault)
  else .error (.textLength bytes.length)

/-- The Base64 form. -/
def text (fingerprint : Fingerprint) : String := Base64.encodeText fingerprint.bytes

end Fingerprint

/-- The key of a described type. -/
inductive Descriptor where
  /-- A type name without namespace. -/
  | symbol (name : String)
  /-- A schema fingerprint. -/
  | fingerprint (value : Fingerprint)
  /-- A numeric descriptor. -/
  | code (value : UInt64)
deriving DecidableEq

/-- A text that should have been a fingerprint, and why it is none. -/
structure FingerprintError where
  input : String
  fault : Fingerprint.Fault
deriving DecidableEq, Repr

/-- The wording of the error. -/
def FingerprintError.message (e : FingerprintError) : String :=
  s!"Invalid fingerprint '{e.input}': {e.fault.message}"

namespace Descriptor

/-- The descriptor of a type name, with or without namespace.  Nothing becomes a
fingerprint here. -/
def ofName (name : String) : Descriptor :=
  .symbol ((stripNamespace? name).getD name)

/-- The descriptor of a symbol as it stands in a stream. -/
def ofWireSymbol (text : String) : Descriptor :=
  match stripNamespace? text with
  | some rest =>
      match Fingerprint.ofBase64 rest with
      | .ok found => .fingerprint found
      | .error _ => .symbol rest
  | none => .symbol text

/-- The descriptor of a fingerprint's Base64 form, with or without namespace. -/
def ofFingerprint (text : String) : Except FingerprintError Descriptor :=
  let plain := (stripNamespace? text).getD text
  match Fingerprint.ofBase64 plain with
  | .ok found => .ok (.fingerprint found)
  | .error fault => .error ⟨plain, fault⟩

/-- The name of a symbolic descriptor. -/
def name? : Descriptor → Option String
  | symbol name => some name
  | _ => none

/-- The descriptor is a fingerprint. -/
def isFingerprint : Descriptor → Bool
  | fingerprint _ => true
  | _ => false

/-- The symbol that stands for the descriptor in a stream; a code has none. -/
def wireSymbol? : Descriptor → Option String
  | symbol name => some (symbolNamespace ++ name)
  | fingerprint value => some (symbolNamespace ++ value.text)
  | code _ => none

/-- The descriptor in messages. -/
def text : Descriptor → String
  | symbol name => name
  | fingerprint value => symbolNamespace ++ value.text
  | code value => Hex.number 16 value.toNat

/-- The descriptor in diagnostic listings. -/
def debugText : Descriptor → String
  | symbol name => s!"Symbol({Text.quote name})"
  | fingerprint value =>
      let bytes := ", ".intercalate (value.bytes.map fun b => toString b.toNat)
      s!"Fingerprint([{bytes}])"
  | code value => s!"Code({value})"

/-- The order key: lists of numbers are compared lexicographically. -/
def key : Descriptor → List Nat
  | symbol name => 0 :: name.toList.map Char.toNat
  | fingerprint value => 1 :: value.bytes.map UInt8.toNat
  | code value => [2, value.toNat]

/-- The descriptor stands before the other. -/
def before (a b : Descriptor) : Bool := decide (a.key < b.key)

theorem key_injective {a b : Descriptor} (h : a.key = b.key) : a = b := by
  have hchars : ∀ s t : String, s.toList.map Char.toNat = t.toList.map Char.toNat → s = t := by
    intro s t hst
    exact String.toList_inj.mp
      ((List.map_inj_right fun _ _ h => Char.toNat_inj.mp h).mp hst)
  cases a <;> cases b <;> simp only [key, List.cons.injEq] at h
  · exact congrArg symbol (hchars _ _ h.2)
  · omega
  · omega
  · omega
  · rename_i f g
    obtain ⟨bf, hf⟩ := f
    obtain ⟨bg, hg⟩ := g
    obtain rfl : bf = bg :=
      (List.map_inj_right fun _ _ h => UInt8.toNat_inj.mp h).mp h.2
    rfl
  · omega
  · omega
  · omega
  · rename_i x y
    exact congrArg code (UInt64.toNat_inj.mp h.2.1)

end Descriptor

/-- A descriptor exactly as it is encoded. -/
inductive RawDescriptor where
  | symbol (text : String)
  | code (value : UInt64)
deriving DecidableEq, Repr

namespace RawDescriptor

/-- The key it stands for. -/
def descriptor : RawDescriptor → Descriptor
  | symbol text => Descriptor.ofWireSymbol text
  | code value => .code value

/-- The encoded descriptor in messages. -/
def text : RawDescriptor → String
  | symbol text => s!"symbol '{text}'"
  | code value => s!"code {Hex.number 16 value.toNat}"

end RawDescriptor

end AmqpEnvelope
