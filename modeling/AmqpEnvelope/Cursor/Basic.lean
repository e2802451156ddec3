import AmqpEnvelope.Error
import AmqpEnvelope.Settings.Basic

/-!
# Cursor

A cursor stands in a byte string and knows which containers are open around it.
Every reader is a `Decoding`: it takes a cursor and answers with a value or an error
and, in either case, with the cursor it leaves behind.  A reader that fails halfway
leaves the cursor where it stopped, with the element claimed and the frames open; a
caller that goes on from there sees exactly that state.

Each container that is entered opens a `Frame`.  A list or map has a declared end and
a declared number of elements; a described value has one element, its body, and ends
where that ends.  Each value read claims one element of the innermost frame, and no
byte past the innermost declared end is ever read.

This module holds the state, the raw access to bytes, and the opening and closing of
frames.
-/

namespace AmqpEnvelope

/-- A container whose elements are being read. -/
structure Frame where
  kind : FrameKind
  /-- Where the container starts. -/
  start : Nat
  /-- Where it ends, if it declares an end. -/
  endsAt : Option Nat
  /-- How many elements it declares. -/
  count : Nat
  /-- How many of them have been claimed. -/
  consumed : Nat
deriving DecidableEq, Repr

/-- A place in a byte string, with the containers around it. -/
structure Cursor where
  /-- The bytes from the cursor to the end of the input. -/
  unread : Bytes
  /-- The number of bytes before the cursor. -/
  position : Nat
  /-- The number of bytes of the whole input. -/
  size : Nat
  /-- The open containers, innermost first. -/
  frames : List Frame
  /-- The bounds of the walk. -/
  limits : Limits
  /-- The depth and position that were marked as the root slot. -/
  root : Option (Nat × Nat)
  /-- The types whose fields the walk has begun to read, latest first. -/
  entered : List String
deriving DecidableEq

/-- A reader: it answers with a value or an error, and always with a cursor. -/
abbrev Decoding (α : Type) := EStateM DecodeError Cursor α

namespace Cursor

/-- A cursor at the start of a byte string. -/
def start (bytes : Bytes) (limits : Limits) : Cursor where
  unread := bytes
  position := 0
  size := bytes.length
  frames := []
  limits := limits
  root := none
  entered := []

/-- The number of open frames. -/
def depth (c : Cursor) : Nat := c.frames.length

/-- Nothing is left of the input. -/
def atEnd (c : Cursor) : Bool := c.size ≤ c.position

/-- The end of the innermost frame that declares one. -/
def innermostEnd? : List Frame → Option Nat
  | [] => none
  | frame :: outer =>
      match frame.endsAt with
      | some e => some e
      | none => innermostEnd? outer

/-- The position before which every read has to end. -/
def bound (c : Cursor) : Nat := (innermostEnd? c.frames).getD c.size

/-- The bytes left before the bound. -/
def available (c : Cursor) : Nat := c.bound - c.position

/-- The elements left in the innermost frame; outside all frames, one unless the input
is used up. -/
def remaining (c : Cursor) : Nat :=
  match c.frames with
  | frame :: _ => frame.count - frame.consumed
  | [] => if c.atEnd then 0 else 1

/-- The next byte before the bound. -/
def peekByte? (c : Cursor) : Option UInt8 :=
  if c.position < c.bound then c.unread.head? else none

/-- The format code that the next byte is assigned to. -/
def peekFormat? (c : Cursor) : Option FormatCode := c.peekByte?.bind FormatCode.ofByte?

/-- The next value is null. -/
def atNull (c : Cursor) : Bool := c.peekByte? == some FormatCode.null.toByte

/-- The cursor stands on the slot that was marked as the root. -/
def atRootSlot (c : Cursor) : Bool := c.root == some (c.depth, c.position)

/-! ## Raw access -/

/-- Move over `n` bytes. -/
def advance (c : Cursor) (n : Nat) : Cursor :=
  { c with unread := c.unread.drop n, position := c.position + n }

/-- Run a reader and come back, whatever it did to the cursor. -/
def probe {α : Type} (reader : Decoding α) : Decoding α := fun c =>
  match reader c with
  | .ok value _ => .ok value c
  | .error e _ => .error e c

/-- A property of the cursor. -/
def asks {α : Type} (f : Cursor → α) : Decoding α := fun c => .ok (f c) c

/-- Fail at an offset because the bytes do not fit. -/
def mismatch {α : Type} (cause : Mismatch) (offset : Nat) : Decoding α :=
  throw (.mismatch cause offset)

/-- The next `n` bytes, which have to end before the bound. -/
def take (n : Nat) (what : String) : Decoding Bytes := fun c =>
  if n ≤ c.available then .ok (c.unread.take n) (c.advance n)
  else .error (.mismatch (.truncated what n c.available) c.position) c

/-- An unsigned number of the given width. -/
def number (width : Nat) (what : String) : Decoding Nat := do
  return BigEndian.toNat (← take width what)

/-- One byte that is not a value of its own. -/
def rawByte (what : String) : Decoding UInt8 := do
  return (← take 1 what).headD 0

/-- Move over a byte string if the input goes on with it.  Inside a frame nothing is
ever stripped. -/
def strip (expected : Bytes) : Decoding Bool := fun c =>
  if c.frames.isEmpty && expected.isPrefixOf c.unread then .ok true (c.advance expected.length)
  else .ok false c

/-- Mark the cursor's slot as the root. -/
def markRoot : Decoding Unit := modify fun c => { c with root := some (c.depth, c.position) }

/-- Note that the fields of a type are about to be read. -/
def enterType (name : String) : Decoding Unit :=
  modify fun c => { c with entered := name :: c.entered }

/-! ## Elements and frames -/

/-- Claim one element of the innermost frame. -/
def claim (what : String) : Decoding Unit := fun c =>
  match c.frames with
  | [] => .ok () c
  | frame :: outer =>
      if frame.count ≤ frame.consumed then
        .error (.mismatch (.exhausted frame.kind what frame.count) c.position) c
      else .ok () { c with frames := { frame with consumed := frame.consumed + 1 } :: outer }

/-- The format code at the cursor, and where it stands. -/
def formatHere (what : String) : Decoding (FormatCode × Nat) := do
  let offset ← asks Cursor.position
  let code := (← take 1 what).headD 0
  match FormatCode.ofByte? code with
  | some format => return (format, offset)
  | none => mismatch (.wrongFormat what code) offset

/-- Claim an element and read its format code. -/
def beginValue (what : String) : Decoding (FormatCode × Nat) := do
  claim what
  formatHere what

/-- Refuse a value for its format code. -/
def wrongFormat {α : Type} (expected : String) (format : FormatCode) (offset : Nat) :
    Decoding α :=
  mismatch (.wrongFormat expected format.toByte) offset

/-- Open a frame, unless as many are open as may be. -/
def push (kind : FrameKind) (start : Nat) (endsAt : Option Nat) (count : Nat) :
    Decoding Unit := fun c =>
  if c.limits.maxDepth ≤ c.depth then
    .error (.limitExceeded .nestingDepth (c.depth + 1) c.limits.maxDepth start) c
  else .ok () { c with frames := ⟨kind, start, endsAt, count, 0⟩ :: c.frames }

/-- Close the innermost frame, which has to be of the given kind, to be read to its
last element, and to end at the cursor. -/
def pop (kind : FrameKind) : Decoding Unit := fun c =>
  match c.frames with
  | [] => .error (.mismatch (.unbalancedExit kind none) c.position) c
  | frame :: outer =>
      if frame.kind ≠ kind then
        .error (.mismatch (.unbalancedExit kind (some (frame.kind, frame.start))) c.position) c
      else if frame.consumed ≠ frame.count then
        .error (.mismatch (.unreadElements kind frame.start frame.count frame.consumed)
          c.position) c
      else
        match frame.endsAt with
        | some e =>
            if c.position ≠ e then
              .error (.mismatch (.wrongEnd kind frame.start e c.position) c.position) c
            else .ok () { c with frames := outer }
        | none => .ok () { c with frames := outer }

end Cursor

end AmqpEnvelope
