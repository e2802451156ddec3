import AmqpEnvelope.Framing
import AmqpEnvelope.Text.Column

/-!
# Outlines

An outline is what can be said about a stream without knowing any of its types: the tree
of its values, each with the offset at which it starts and a label.  It is read with the
same cursor as typed values, so it exists exactly for streams that are well formed to the
last byte, and it is printed with one line for each value, parents before children and
indented below them.

The hexadecimal listing of a byte string is here as well, since the two are shown
together.
-/

namespace AmqpEnvelope

/-- A value of an outline. -/
inductive Node where
  | mk (offset : Nat) (label : String) (children : List Node)

/-- The outline of a stream: the section number if there is a preamble, and the values
at the top. -/
structure Outline where
  sectionId : Option UInt8
  nodes : List Node

namespace Outline

/-- Bytes of a payload that are shown before the rest is left out. -/
def previewLength : Nat := 32

/-- The bytes of a payload, shortened if there are many. -/
def preview (bytes : Bytes) : String :=
  if previewLength < bytes.length then Hex.encode (bytes.take previewLength) ++ ".."
  else Hex.encode bytes

/-- The label of a primitive value. -/
def scalarLabel (s : Scalar) : String :=
  match s with
  | ⟨.null, _⟩ => "null"
  | ⟨.boolean, b⟩ => if b then "boolean true" else "boolean false"
  | ⟨.ubyte, n⟩ => s!"ubyte {n}"
  | ⟨.ushort, n⟩ => s!"ushort {n}"
  | ⟨.uint, n⟩ => s!"uint {n}"
  | ⟨.ulong, n⟩ => s!"ulong {n}"
  | ⟨.byte, n⟩ => s!"byte {n}"
  | ⟨.short, n⟩ => s!"short {n}"
  | ⟨.int, n⟩ => s!"int {n}"
  | ⟨.long, n⟩ => s!"long {n}"
  | ⟨.float, f⟩ => s!"float {f.text}"
  | ⟨.double, f⟩ => s!"double {f.text}"
  | ⟨.timestamp, n⟩ => s!"timestamp {n}ms"
  | ⟨.char, c⟩ => s!"char {Text.quoteChar c}"
  | ⟨.uuid, bytes⟩ => s!"uuid {Hex.encode bytes}"
  | ⟨.binary, bytes⟩ => s!"binary ({bytes.length} bytes) {preview bytes}"
  | ⟨.string, text⟩ => s!"string {Text.quote text}"
  | ⟨.symbol, text⟩ => s!"symbol {text}"

open Cursor

/-- A value whose parts, if it has any, are read by `child`. -/
def nodeWith (child : Decoding Node) : Decoding Node := do
  let offset ← asks Cursor.position
  match ← asks Cursor.peekFormat? with
  | none =>
      -- Skipping fails here, since there is no byte or no code assigned to it.
      skip
      return .mk offset "nothing" []
  | some format =>
      match format.primitive?, format with
      | some p, _ => return .mk offset (scalarLabel (← readScalar p)) []
      | none, .described =>
          let opening ← beginDescribed
          let body ← child
          finishDescribed
          return .mk offset s!"described {opening.raw.text}" [body]
      | none, .list0 | none, .list8 | none, .list32 =>
          let count ← enterList
          let elements ← collect child count []
          exitList
          return .mk offset s!"list ({count} elements)" elements
      | none, .map8 | none, .map32 =>
          let entries ← enterMap
          let elements ← collect child (entries * 2) []
          exitMap
          return .mk offset s!"map ({entries} entries)" elements
      | none, other =>
          let bytes ← capture
          return .mk offset s!"{other.name} ({bytes.length} bytes) {preview bytes}" []

/-- Refuse a value for its depth. -/
def tooDeep : Decoding Node := do
  let c ← get
  throw (.limitExceeded .nestingDepth (c.depth + 1) c.limits.maxDepth c.position)

/-- A value that may nest `room` levels deep.  With as much room as the bounds leave, no
container is entered when there is none. -/
def node : (room : Nat) → Decoding Node
  | 0 => nodeWith tooDeep
  | room + 1 => nodeWith (node room)

/-- The next value with its parts. -/
def value : Decoding Node := do
  let c ← get
  node (c.limits.maxDepth - c.depth)

/-- Values up to the end of the input, at most `steps` of them, in front of earlier ones
which are held latest first. -/
def valuesUpTo : (steps : Nat) → List Node → Decoding (List Node)
  | 0, done => return done.reverse
  | steps + 1, done => do
      let finished ← asks Cursor.atEnd
      if finished then return done.reverse
      else valuesUpTo steps ((← value) :: done)

/-- A complete stream: the section number of a preamble if there is one, whatever it is,
and values to the end.  Each takes at least one byte, so there are no more of them than
bytes. -/
def stream : Decoding Outline := do
  let sectionId ← if ← strip streamMagic then some <$> rawByte "section id" else pure none
  let c ← get
  return ⟨sectionId, ← valuesUpTo (c.size - c.position) []⟩

/-- The outline of a byte string under the standard bounds. -/
def ofBytes (bytes : Bytes) : Except DecodeError Outline :=
  match stream (Cursor.start bytes Limits.standard) with
  | .ok outline _ => .ok outline
  | .error e _ => .error e

/-! ## Printing -/

/-- A line: the offset in a column of six, and the label indented by depth. -/
def line (depth offset : Nat) (label : String) : String :=
  Text.padLeft 6 (toString offset) ++ "  " ++ String.ofList (List.replicate (2 * depth) ' ') ++ label

mutual

/-- Put the lines of a value and its parts on a pile, latest first. -/
def addNode (depth : Nat) : Node → List String → List String
  | .mk offset label children, pile =>
      addNodes (depth + 1) children (line depth offset label :: pile)
termination_by structural node => node

/-- Put the lines of several values on a pile, latest first. -/
def addNodes (depth : Nat) : List Node → List String → List String
  | [], pile => pile
  | node :: rest, pile => addNodes depth rest (addNode depth node pile)
termination_by structural nodes => nodes

end

/-- The line of a preamble. -/
def sectionLine (id : UInt8) : String :=
  let kind := if id = dataSection then "data" else "unsupported"
  line 0 0 s!"preamble, section {id} ({kind})"

/-- One line for the preamble, if there is one, and one for each value. -/
def lines (outline : Outline) : List String :=
  let heading := match outline.sectionId with
    | some id => [sectionLine id]
    | none => []
  heading ++ (addNodes 0 outline.nodes []).reverse

/-- The outline as a text. -/
def text (outline : Outline) : String := "\n".intercalate outline.lines

end Outline

/-! ## Hexadecimal listing -/

/-- Rows of sixteen bytes, the first of which stands at `offset`; `rows` bounds their
number. -/
def hexRows (offset : Nat) : (rows : Nat) → Bytes → List String
  | 0, _ => []
  | _, [] => []
  | rows + 1, bytes =>
      s!"{Hex.padded 8 offset}  {Hex.encode (bytes.take 16)}"
        :: hexRows (offset + 16) rows (bytes.drop 16)

/-- The bytes in rows of sixteen, each behind its offset. -/
def hexListing (bytes : Bytes) : String :=
  "\n".intercalate (hexRows 0 bytes.length bytes)

end AmqpEnvelope
