import AmqpEnvelope.Cursor.Container

/-!
# Skipping and capturing

A value can be passed over without being understood: its format code gives its extent.
Only a described value has no extent of its own, so skipping one skips its descriptor
and its body, each of which may again be described.  The depth bound applies to that
nesting; what is inside a list, map or array is not looked at.
-/

namespace AmqpEnvelope.Cursor

/-- Skip a value whose element has been claimed.  `depth` is the nesting of the value
and `room` how much deeper it may nest. -/
def skipBody : (room depth : Nat) → Decoding Unit
  | room, depth => do
      let (format, offset) ← formatHere "value"
      match format.category with
      | .described =>
          match room with
          | 0 =>
              let limits ← asks Cursor.limits
              throw (.limitExceeded .nestingDepth (depth + 1) limits.maxDepth offset)
          | room + 1 => do
              skipBody room (depth + 1)
              skipBody room (depth + 1)
      | category => do
          let _ ← payload category format.name

/-- Skip the next value. -/
def skip : Decoding Unit := do
  claim "value"
  let c ← get
  skipBody (c.limits.maxDepth - c.depth) c.depth

/-- The bytes of the next value. -/
def capture : Decoding Bytes := fun c =>
  match skip c with
  | .ok () after => .ok (c.unread.take (after.position - c.position)) after
  | .error e after => .error e after

/-- Skip values until none is left in the innermost frame, or at most `steps` of them. -/
def skipUpTo : (steps : Nat) → Decoding Unit
  | 0 => return ()
  | steps + 1 => do
      let left ← asks Cursor.remaining
      if left = 0 then return ()
      else
        skip
        skipUpTo steps

/-- Skip what is left in the innermost frame; outside all frames, the rest of the input.
The number of steps is never what ends this: an element is claimed with each step inside
a frame, and a byte is read with each step outside. -/
def skipRemaining : Decoding Unit := do
  let c ← get
  skipUpTo (if c.frames.isEmpty then c.size - c.position else c.remaining)

end AmqpEnvelope.Cursor
