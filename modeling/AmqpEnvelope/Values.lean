import AmqpEnvelope.Bytes

/-!
# Standard values

Plain data for the standard types that any stream may contain.  Nothing here knows
how a value is encoded.
-/

namespace AmqpEnvelope

/-- A point on the UTC time-line. -/
structure Instant where
  epochSeconds : Int64
  nanos : Int32
deriving DecidableEq, Repr

/-- Nanoseconds since the Unix epoch.  The nanosecond part is added as it is, also
when it is negative or a second and more. -/
def Instant.unixNanos (t : Instant) : Int :=
  t.epochSeconds.toInt * 1000000000 + t.nanos.toInt

/-- A calendar date without time zone. -/
structure LocalDate where
  year : UInt32
  month : UInt8
  day : UInt8
deriving DecidableEq, Repr

/-- An amount of time as it is encoded: the nanoseconds may amount to seconds. -/
structure Duration where
  seconds : UInt64
  nanos : UInt32
deriving DecidableEq, Repr

/-- An amount of time whose nanoseconds are less than a second. -/
structure TimeSpan where
  seconds : UInt64
  nanos : UInt32
  nanos_lt : nanos.toNat < 1000000000
deriving DecidableEq, Repr

namespace Duration

/-- The amount of time in nanoseconds. -/
def totalNanos (d : Duration) : Nat := d.seconds.toNat * 1000000000 + d.nanos.toNat

/-- Carry whole seconds out of the nanoseconds; there is no result when the seconds
no longer fit 64 bits. -/
def carry? (d : Duration) : Option TimeSpan :=
  let seconds := d.seconds.toNat + d.nanos.toNat / 1000000000
  if seconds < UInt64.size then
    some ⟨UInt64.ofNat seconds, UInt32.ofNat (d.nanos.toNat % 1000000000), by
      rw [UInt32.toNat_ofNat']; omega⟩
  else none

end Duration

/-- A currency by its code. -/
structure Currency where
  code : String
deriving DecidableEq, Repr

/-- A class by its fully qualified name. -/
structure ClassName where
  name : String
deriving DecidableEq, Repr

/-- A public key in its X.509 encoding. -/
structure PublicKey where
  x509 : Bytes
deriving DecidableEq, Repr

/-- An immutable byte sequence. -/
structure ByteSequence where
  bytes : Bytes
deriving DecidableEq, Repr

/-- The salt that is mixed into every component hash of a transaction. -/
structure PrivacySalt where
  bytes : Bytes
deriving DecidableEq, Repr

/-- Bytes that a salt has to have in a stream. -/
def PrivacySalt.size : Nat := 32

/-- A nested stream whose element type the enclosing stream does not name. -/
structure SerializedBytes where
  bytes : Bytes
deriving DecidableEq, Repr

/-- The platform and scheme that a signature was made with. -/
structure SignatureMetadata where
  platformVersion : Int32
  schemeNumber : Int32
deriving DecidableEq, Repr

end AmqpEnvelope
