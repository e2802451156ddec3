import AmqpEnvelope.Decode.Typed
import AmqpEnvelope.Rendering.Slot

/-!
# Dispatch

The composite at the cursor is decoded by the constructor that is registered for its
descriptor.  Where none is registered, the settings decide whether its bytes are kept or
decoding fails; the root slot and the slots below it have settings of their own.

A constructor may decode further slots, so dispatch is recursive.  It ends because every
composite that is entered moves the cursor on.  Only a script could ask for the very composite
that it is to read, without having moved the cursor or left a container; such a request would
come back to the same script forever, and it is refused.  `Cursor.potential` measures what may
still happen: it falls with every byte that is read and every frame that is closed, also when
bytes open a frame.
-/

namespace AmqpEnvelope

/-- What is left to happen at a cursor.  Opening a frame takes at least one byte, which
counts twice. -/
def Cursor.potential (c : Cursor) : Nat := 2 * (c.size - c.position) + c.frames.length

namespace Decode

open Cursor

/-- Decode the composite at the cursor, which has to carry a given descriptor.  The
cursor stays where it is if it does not. -/
def checked (resolver : Resolver) (expected : Descriptor) : Decoding Value := do
  let refuse (actual : String) : Decoding Value := do
    throw (.unexpectedDescriptor expected.text actual (← asks Cursor.position))
  match ← peekDescriptor with
  | some found => if found = expected then resolver expected else refuse found.text
  | none => refuse "no described type"

/-- Run one step of a script, which gives a rendering of its result. -/
def step (registry : Registry) (resolver : Resolver) : Step → Decoding Rendering
  | .read p => Scalar.rendering <$> readScalar p
  | .beginDescribed => Opening.rendering <$> beginDescribed
  | .beginExpecting symbol => Opening.rendering <$> expectSymbol symbol
  | .expectSymbol symbol => Opening.rendering <$> expectSymbol symbol
  | .finishDescribed => do finishDescribed; return .done
  | .enterComposite => Descriptor.rendering <$> enterComposite
  | .exitComposite => do exitComposite; return .done
  | .enterList => .natural <$> enterList
  | .exitList => do exitList; return .done
  | .enterMap => .natural <$> enterMap
  | .exitMap => do exitMap; return .done
  | .skip => do skip; return .done
  | .capture => .bytes <$> capture
  | .peekByte => .orNull (fun byte => .natural byte.toNat) <$> asks Cursor.peekByte?
  | .peekFormat => .orNull (fun format => .text format.text) <$> asks Cursor.peekFormat?
  | .atNull => .flag <$> asks Cursor.atNull
  | .atRootSlot => .flag <$> asks Cursor.atRootSlot
  | .peekDescriptor => .orNull Descriptor.rendering <$> peekDescriptor
  | .strip expected => .flag <$> strip expected
  | .rawByte what => do return .natural (← rawByte what).toNat
  | .unreadBytes => .bytes <$> asks Cursor.unread
  | .markRoot => do markRoot; return .done
  | .limits => Limits.rendering <$> asks Cursor.limits
  | .readPreamble => .flag <$> readPreamble registry.settings.framing
  | .enterEnvelope => .flag <$> enterEnvelope
  | .exitEnvelope => do exitEnvelope; return .done
  | .decode t => t.rendering <$> target registry resolver t
  | .decodeList t => do
      return .list ((← listOf (target registry resolver t)).map t.rendering)
  | .decodeNullable t => .orNull t.rendering <$> nullable (target registry resolver t)
  | .decodeAs descriptor => Value.rendering <$> checked resolver descriptor

/-- Run the steps of a script in order; the first that fails ends it. -/
def steps (registry : Registry) (resolver : Resolver) : List Step → Decoding (List Rendering)
  | [] => return []
  | first :: rest => do
      let item ← step registry resolver first
      let items ← steps registry resolver rest
      return item :: items

/-- What a constructor does once its composite has been entered, or with the cursor at the
marker if it enters the composite itself. -/
def constructorBody (registry : Registry) (resolver : Resolver) : Constructor → Decoding Value
  | .described k => .known <$> begun k (fields registry resolver k)
  | .nestedStream => .serialized <$> begun .serializedBytes serializedBytesFields
  | .scripted script => do
      let items ← steps registry resolver script.steps
      return if script.yieldsNull then .null
        else .known (.transcript ⟨script.typeName, script.label, items⟩)

/-- Run a constructor with the cursor at the marker of its composite. -/
def invoke (registry : Registry) (resolver : Resolver) (c : Constructor) : Decoding Value :=
  match c.entry with
  | .dispatched => do
      let _ ← enterComposite
      let value ← constructorBody registry resolver c
      exitComposite
      return value
  | .selfDescribing => constructorBody registry resolver c

/-- Keep the bytes of the composite at the cursor. -/
def captureComposite (d : Descriptor) : Decoding Value := do
  let start ← asks Cursor.position
  let bodyStart ← probe do
    let _ ← beginDescribed
    asks Cursor.position
  let bytes ← capture
  return .captured (.of d bytes (bodyStart - start))

/-- Decode the composite at the cursor, with a resolver for the slots in it. -/
def dispatchWith (registry : Registry) (resolver : Resolver) (d : Descriptor) :
    Decoding Value := do
  match registry.resolve d with
  | some c => invoke registry resolver c
  | none =>
      let c ← get
      match registry.settings.unknownTypes.actionFor c.atRootSlot with
      | .reject => throw (.unknownDescriptor d c.position)
      | .capture => captureComposite d

/-- Decode the composite at the cursor. -/
def dispatch (registry : Registry) (d : Descriptor) (c : Cursor) :
    EStateM.Result DecodeError Cursor Value :=
  dispatchWith registry
    (fun inner c' =>
      if c'.potential < c.potential then dispatch registry inner c'
      else .error (.mismatch .selfReference c'.position) c')
    d c
termination_by c.potential

end Decode

namespace Registry

open Decode

/-- Decode a slot: null, or a composite by its descriptor. -/
def decodeSlot (registry : Registry) : Decoding Value := slot (dispatch registry)

/-- Decode the composite at the cursor, which has to carry a given descriptor. -/
def decodeAs (registry : Registry) (d : Descriptor) : Decoding Value :=
  checked (dispatch registry) d

/-- Decode a value of a described type. -/
def decodeKind (registry : Registry) (k : Kind) : Decoding Known :=
  kind registry (dispatch registry) k

/-- Decode a value for a target. -/
def decodeTarget (registry : Registry) (t : Target) : Decoding t.Carrier :=
  target registry (dispatch registry) t

/-- Run one step at the cursor. -/
def runStep (registry : Registry) (s : Step) : Decoding Rendering :=
  step registry (dispatch registry) s

/-! ## Complete streams -/

/-- Read a complete stream whose root value is read by the given reader.  The result
carries the cursor at which reading ended. -/
def readStream {α : Type} (registry : Registry) (reader : Decoding α) (bytes : Bytes) :
    EStateM.Result DecodeError Cursor α :=
  Cursor.rootValue registry.settings.framing reader
    (Cursor.start bytes registry.settings.limits)

/-- Decode a complete stream for a target. -/
def decodeRoot (registry : Registry) (t : Target) (bytes : Bytes) :
    Except DecodeError t.Carrier :=
  match registry.readStream (registry.decodeTarget t) bytes with
  | .ok value _ => .ok value
  | .error e _ => .error e

/-- Decode a complete stream whose root type is not known in advance. -/
def decodeAny (registry : Registry) (bytes : Bytes) : Except DecodeError Value :=
  registry.decodeRoot .slot bytes

end Registry

end AmqpEnvelope
