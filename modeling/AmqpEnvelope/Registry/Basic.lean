import AmqpEnvelope.Script
import AmqpEnvelope.Settings.Basic

/-!
# Type registry

A registry maps descriptors to constructors and carries the settings that decoding under it
follows.  Registering under a descriptor that is present replaces the constructor: the last
registration wins.

The entries are kept in the order of `Descriptor.key`, so two registries with the same
entries are equal, whatever the order of registration.
-/

namespace AmqpEnvelope

/-- How composites with a registered descriptor are decoded. -/
inductive Constructor where
  /-- As a value of a described type. -/
  | described (kind : Kind)
  /-- As a nested stream whose type is decided later. -/
  | nestedStream
  /-- As a script says. -/
  | scripted (script : Script)
deriving DecidableEq

namespace Constructor

/-- How the composite is entered. -/
def entry : Constructor → EntryMode
  | described kind => kind.entry
  | nestedStream => .dispatched
  | scripted script => script.entry

/-- The name of the constructor in diagnostics. -/
def typeName : Constructor → String
  | described kind => kind.typeName
  | nestedStream => "SerializedBytes"
  | scripted script => script.label

/-- The type whose typed fields accept what the constructor yields. -/
def produces : Constructor → Option Kind
  | described kind => some kind
  | nestedStream => some .serializedBytes
  | scripted script => script.produces

/-- The constructor in diagnostic listings. -/
def debugText (c : Constructor) : String :=
  s!"Constructor \x7b entry: {c.entry.text}, type_name: {Text.quote c.typeName} \x7d"

end Constructor

/-- Constructors by descriptor, and settings. -/
structure Registry where
  /-- The entries in ascending order of their keys. -/
  entries : List (Descriptor × Constructor)
  settings : Settings
deriving DecidableEq

namespace Registry

/-- Insert or replace an entry of a list in ascending order of keys.  The first result is
the constructor that was replaced. -/
def insertEntry (d : Descriptor) (c : Constructor) :
    List (Descriptor × Constructor) → Option Constructor × List (Descriptor × Constructor)
  | [] => (none, [(d, c)])
  | (key, constructor) :: rest =>
      if key = d then (some constructor, (d, c) :: rest)
      else if d.before key then (none, (d, c) :: (key, constructor) :: rest)
      else
        let (replaced, inserted) := insertEntry d c rest
        (replaced, (key, constructor) :: inserted)

/-- The entry with a given key. -/
def findEntry (d : Descriptor) : List (Descriptor × Constructor) → Option Constructor
  | [] => none
  | (key, constructor) :: rest => if key = d then some constructor else findEntry d rest

/-- A registry without entries. -/
def empty (settings : Settings) : Registry := ⟨[], settings⟩

/-- The constructor registered for a descriptor. -/
def resolve (r : Registry) (d : Descriptor) : Option Constructor := findEntry d r.entries

/-- Register a constructor; the first result is the one that it replaces. -/
def register (r : Registry) (d : Descriptor) (c : Constructor) : Option Constructor × Registry :=
  let (replaced, entries) := insertEntry d c r.entries
  (replaced, { r with entries := entries })

/-- Register a described type under its own descriptor. -/
def registerKind (r : Registry) (k : Kind) : Option Constructor × Registry :=
  r.register k.descriptor (.described k)

/-- Register a described type under a further descriptor. -/
def registerAlias (r : Registry) (k : Kind) (d : Descriptor) : Option Constructor × Registry :=
  r.register d (.described k)

/-- A constructor is registered for the descriptor. -/
def contains (r : Registry) (d : Descriptor) : Bool := (r.resolve d).isSome

/-- The number of registered descriptors. -/
def size (r : Registry) : Nat := r.entries.length

/-- The registered descriptors in ascending order. -/
def descriptors (r : Registry) : List Descriptor := r.entries.map Prod.fst

/-- A typed field accepts a composite with this descriptor: it is the type's own, or a
constructor registered for it yields the type. -/
def accepts (r : Registry) (k : Kind) (d : Descriptor) : Bool :=
  d == k.descriptor || (r.resolve d).any fun c => c.produces == some k

/-- The fingerprint of the schema of byte windows, which are encoded like byte
sequences. -/
def byteWindowText : String := "net.corda:0UvJuq940P0jrySmql4EPg=="

/-- The standard types that are registered under their own descriptors. -/
def standardKinds : List Kind :=
  [.instant, .localDate, .duration, .currency, .className, .publicKey, .throwable, .byteSequence,
    .privacySalt, .componentGroup, .wireTransaction, .signatureMetadata, .transactionSignature,
    .signedTransaction]

/-- The constructors of the standard types, in the order in which they are registered.  What a
nested stream holds is known only to whoever asks for it, so serialised bytes come out as such
and not as a value of their type. -/
def standardEntries : List (Descriptor × Constructor) :=
  standardKinds.map (fun k => (k.descriptor, .described k)) ++
    [(Descriptor.ofWireSymbol byteWindowText, .described .byteSequence),
      (Kind.serializedBytes.descriptor, .nestedStream)]

/-- Register every standard type. -/
def registerStandard (r : Registry) : Registry :=
  standardEntries.foldl (fun r entry => (r.register entry.1 entry.2).2) r

/-- A registry with every standard type. -/
def standard (settings : Settings) : Registry := (empty settings).registerStandard

/-! ## Diagnostic listing -/

/-- The registry in diagnostic listings. -/
def debugText (r : Registry) : String :=
  let listed := ", ".intercalate (r.descriptors.map Descriptor.debugText)
  s!"TypeRegistry \x7b descriptors: [{listed}], config: {r.settings.debugText} \x7d"

end Registry

end AmqpEnvelope
