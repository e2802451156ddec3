import AmqpEnvelope.Cursor.Primitive

/-!
# Described values, lists and maps

A described value is a marker, a descriptor and a body; the body is the one element of
its frame.  A composite is a described value whose body is a list.  Lists and maps
declare their size and their number of elements before the first element, and the
header is checked against what is left before any element is read: the size against the
bytes before the bound, the number against the configured bound and against the size,
since every element takes at least one byte.
-/

namespace AmqpEnvelope

/-- A descriptor that was read, and where its marker stands. -/
structure Opening where
  raw : RawDescriptor
  offset : Nat
deriving DecidableEq, Repr

namespace Opening

/-- The key that the descriptor stands for. -/
def descriptor (o : Opening) : Descriptor := o.raw.descriptor

/-- Require the descriptor to be exactly the given symbol.  The namespace counts: with
and without it are two symbols here. -/
def requireSymbol (o : Opening) (expected : String) : Except DecodeError Unit :=
  if o.raw = .symbol expected then .ok ()
  else .error (.unexpectedDescriptor (RawDescriptor.symbol expected).text o.raw.text o.offset)

end Opening

namespace Cursor

/-! ## Described values -/

/-- A descriptor: a symbol or an unsigned long. -/
def rawDescriptor : Decoding RawDescriptor := do
  let (format, offset) ← formatHere "descriptor"
  match format.primitive? with
  | some .symbol => return .symbol (← primitiveBody .symbol format offset)
  | some .ulong => return .code (← primitiveBody .ulong format offset)
  | _ => wrongFormat "descriptor (symbol or ulong)" format offset

/-- The descriptor of the next value, if that is described.  The cursor stays. -/
def peekDescriptor : Decoding (Option Descriptor) := fun c =>
  if c.peekByte? = some FormatCode.described.toByte then
    match rawDescriptor (c.advance 1) with
    | .ok raw _ => .ok (some raw.descriptor) c
    | .error e _ => .error e c
  else .ok none c

/-- Read the marker and the descriptor of a described value; its body comes next. -/
def beginDescribed : Decoding Opening := do
  let (format, offset) ← beginValue "described type"
  if format = .described then
    let raw ← rawDescriptor
    push .described offset none 1
    return ⟨raw, offset⟩
  else wrongFormat "described type" format offset

/-- Leave a described value behind its body. -/
def finishDescribed : Decoding Unit := pop .described

/-- Begin a described value and require its descriptor to be a given symbol.  The
frame stays open when it is another. -/
def expectSymbol (expected : String) : Decoding Opening := do
  let opening ← beginDescribed
  match opening.requireSymbol expected with
  | .ok () => return opening
  | .error e => throw e

/-! ## Lists and maps -/

/-- The count behind a size prefix, checked against the bound on collections and
against the bytes that the size leaves for the elements. -/
def elementCount (width : Nat) (what : String) (declaredEnd sizeOffset : Nat) :
    Decoding Nat := do
  let count ← number width what
  let c ← get
  if c.limits.maxCollectionLength < count then
    throw (.limitExceeded .collectionLength count c.limits.maxCollectionLength sizeOffset)
  else if declaredEnd - c.position < count then
    mismatch (.countAboveSize what count (declaredEnd - c.position)) sizeOffset
  else return count

/-- The size and count in front of a container's elements: its declared end and its
number of elements. -/
def compoundHeader (width : Nat) (what : String) : Decoding (Nat × Nat) := do
  let sizeOffset ← asks Cursor.position
  let size ← number width what
  let c ← get
  if size < width then mismatch (.sizeBelowCount what width size) sizeOffset
  else if c.available < size then mismatch (.truncated what size c.available) c.position
  else do
    let count ← elementCount width what (c.position + size) sizeOffset
    return (c.position + size, count)

/-- The header of a list whose format code has been read. -/
def listHeader (format : FormatCode) (offset : Nat) : Decoding (Nat × Nat) := do
  match format with
  | .list0 => return (← asks Cursor.position, 0)
  | .list8 => compoundHeader 1 "list"
  | .list32 => compoundHeader 4 "list"
  | _ => wrongFormat "list" format offset

/-- Enter a list; the result is its number of elements. -/
def enterList : Decoding Nat := do
  let (format, offset) ← beginValue "list"
  let (declaredEnd, count) ← listHeader format offset
  push .list offset (some declaredEnd) count
  return count

/-- Leave a list behind its last element. -/
def exitList : Decoding Unit := pop .list

/-- The header of a map whose format code has been read. -/
def mapHeader (format : FormatCode) (offset : Nat) : Decoding (Nat × Nat) := do
  match format with
  | .map8 => compoundHeader 1 "map"
  | .map32 => compoundHeader 4 "map"
  | _ => wrongFormat "map" format offset

/-- Enter a map; the result is its number of entries. -/
def enterMap : Decoding Nat := do
  let (format, offset) ← beginValue "map"
  let (declaredEnd, count) ← mapHeader format offset
  if count % 2 = 0 then
    push .map offset (some declaredEnd) count
    return count / 2
  else mismatch (.oddMapCount count) offset

/-- Leave a map behind its last entry. -/
def exitMap : Decoding Unit := pop .map

/-! ## Composites -/

/-- Enter a composite; the result is the key of its descriptor. -/
def enterComposite : Decoding Descriptor := do
  let opening ← beginDescribed
  let _ ← enterList
  return opening.descriptor

/-- Leave a composite behind its last field. -/
def exitComposite : Decoding Unit := do
  exitList
  finishDescribed

/-- Run a reader a number of times and collect the results in front of `done`, which
holds earlier ones latest first. -/
def collect {α : Type} (reader : Decoding α) : Nat → List α → Decoding (List α)
  | 0, done => return done.reverse
  | n + 1, done => do collect reader n ((← reader) :: done)

/-- Read a list whose elements are all read by one reader. -/
def listOf {α : Type} (reader : Decoding α) : Decoding (List α) := do
  let count ← enterList
  let items ← collect reader count []
  exitList
  return items

/-- Read a value that may be null. -/
def nullable {α : Type} (reader : Decoding α) : Decoding (Option α) := do
  if ← asks Cursor.atNull then
    read .null
    return none
  else return some (← reader)

end Cursor

end AmqpEnvelope
