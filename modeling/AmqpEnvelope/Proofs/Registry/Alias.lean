import AmqpEnvelope.Proofs.Framing.Root
import AmqpEnvelope.Proofs.Registry.Standard
import AmqpEnvelope.Proofs.Written.Extent
import AmqpEnvelope.Proofs.Written.Signed

/-!
# Standard types under further descriptors

A standard type may be registered under a further descriptor.  Its values are then written under
either of the two, and what is behind the descriptor decides what they are.

Two types know their own descriptor from others (`Registry.serves_further`).

* The symbol of a public key belongs to its encoding.  Whatever is registered, a key is read
  behind this symbol and behind no other.
* A nested stream is held as such where it stands in a slot under its own descriptor.  The stream
  that is found under a further one is the same.

For the others it does not matter which of the descriptors is written.
-/

namespace AmqpEnvelope

open Written

/-! ## One head and one body -/

namespace Written

variable {raw raw' : RawDescriptor} {body body' bytes : Bytes}

theorem Described.not_magic (h : Described raw body bytes) : ¬ streamMagic <+: bytes := by
  obtain ⟨head, rfl, -⟩ := h
  rintro ⟨rest, hrest⟩
  cases (List.cons.inj hrest).1

end Written

namespace Grammar

variable {α : Type} {bounds : Limits} {raw : RawDescriptor} {body bs : Bytes}

/-- Of a described value it is known what stands behind which descriptor. -/
theorem described_iff_of_described (h : Described raw body bs) {g : RawDescriptor → Grammar α}
    {value : α} : described g bounds 1 bs value ↔
      0 < bounds.maxDepth ∧ g raw bounds.inner 1 body value := by
  rw [described_written_iff, and_iff_right rfl]
  refine and_congr_right fun _ => ⟨?_, fun hbody => ⟨raw, body, h, hbody⟩⟩
  rintro ⟨raw', body', h', hbody⟩
  obtain ⟨rfl, rfl⟩ := h.inj h'
  exact hbody

/-- A described value in a slot is what its descriptor makes of it. -/
theorem slot_iff_of_described (h : Described raw body bs) {registry : Registry} {levels : Nat}
    {root : Bool} {n : Nat} {value : Value} : slot registry (levels + 1) root bounds n bs value ↔
      dispatched registry (slot registry levels false) root raw.descriptor bounds n bs value := by
  have hmarker : ¬ bs.head? = some FormatCode.null.toByte := by
    obtain ⟨head, rfl, -⟩ := h
    rw [List.head?_cons]
    decide
  change nullOr _ _ bounds n bs value ↔ _
  rw [nullOr, if_neg hmarker]
  constructor
  · rintro ⟨d, hd, hcomposite⟩
    obtain ⟨raw', body', h', rfl⟩ := headed_iff.mp hd
    rwa [(h.inj h').1]
  · exact fun hcomposite => ⟨_, headed_iff.mpr ⟨raw, body, h, rfl⟩, hcomposite⟩

end Grammar

/-- The nested stream in what a slot holds, in whichever way it is held. -/
def Held.stream? : Held → Option SerializedBytes
  | .known (.serializedBytes s) => some s
  | .serialized s => some s
  | _ => none

/-! ## Streams of one described value -/

namespace Registry

/-- What slots may hold below the root. -/
def slots (registry : Registry) : Grammar Value :=
  Grammar.slot registry (registry.settings.limits.maxDepth + 1) false

/-- The body of a composite stands for a value of the type, whatever is in front of it. -/
def InBody (registry : Registry) (k : Kind) (body : Bytes) (value : Known) : Prop :=
  0 < registry.settings.limits.maxDepth ∧
    Grammar.listed (fun _ => Grammar.fields registry registry.slots k)
      registry.settings.limits.inner 1 body value

theorem inBody_serializedBytes_iff {registry : Registry} {body : Bytes} {value : Known} :
    registry.InBody .serializedBytes body value ↔ ∃ s, value = .serializedBytes s ∧
      0 < registry.settings.limits.maxDepth ∧ Grammar.listed (fun _ => Grammar.serializedBytes)
        registry.settings.limits.inner 1 body s := by
  have hfields : (Grammar.listed fun _ => Grammar.fields registry registry.slots .serializedBytes) =
      Known.serializedBytes <$> Grammar.listed fun _ => Grammar.serializedBytes :=
    Grammar.container_map _ _ _
  rw [InBody, hfields, Grammar.map_iff]
  constructor
  · rintro ⟨hroom, s, hlisted, hvalue⟩
    exact ⟨s, hvalue, hroom, hlisted⟩
  · rintro ⟨s, hvalue, hroom, hlisted⟩
    exact ⟨hroom, s, hlisted, hvalue⟩

/-- The body of a key stands for the key. -/
def InKeyBody (registry : Registry) (body : Bytes) (value : Known) : Prop :=
  0 < registry.settings.limits.maxDepth ∧
    ∃ x509, Grammar.scalar .binary registry.settings.limits.inner 1 body x509 ∧
      value = .publicKey ⟨x509⟩

variable {registry : Registry} {k : Kind} {raw : RawDescriptor} {body bytes : Bytes}
  {value : Known}

/-- Registered types are all there is, and streams are taken as they are. -/
structure Bare (registry : Registry) : Prop where
  declared : registry.Declared
  not_required : registry.settings.framing.requirePreamble = false
  not_unwrapped : registry.settings.framing.unwrapEnvelope = false

namespace Bare

theorem decodeKind_iff (hbare : registry.Bare) (h : Described raw body bytes) :
    registry.decodeRoot (.kind k) bytes = .ok value ↔
      Grammar.kind registry registry.slots k registry.settings.limits 1 bytes value :=
  decodeRoot_iff_of_bare hbare.declared hbare.not_required hbare.not_unwrapped h.not_magic (.kind k)
    (Nat.lt_succ_self _)

theorem decodeAny_iff (hbare : registry.Bare) (h : Described raw body bytes) {held : Value} :
    registry.decodeAny bytes = .ok held ↔
      Grammar.dispatched registry registry.slots true raw.descriptor registry.settings.limits 1
        bytes held := by
  have hlevels : registry.settings.limits.maxDepth < registry.settings.limits.maxDepth + 2 := by
    omega
  rw [decodeAny, decodeRoot_iff_of_bare hbare.declared hbare.not_required hbare.not_unwrapped
    h.not_magic .slot hlevels]
  exact Grammar.slot_iff_of_described h

/-- Where the descriptor is accepted, it has no further say. -/
theorem decodeKind_iff_inBody (hbare : registry.Bare) (h : Described raw body bytes)
    (hentry : k.entry = .dispatched) (haccepts : registry.accepts k raw.descriptor = true) :
    registry.decodeRoot (.kind k) bytes = .ok value ↔ registry.InBody k body value := by
  rw [hbare.decodeKind_iff h, Grammar.kind, hentry]
  dsimp only
  rw [Grammar.typed, Grammar.composite, Grammar.described_iff_of_described h, if_pos haccepts]
  rfl

theorem decodeAny_iff_inBody (hbare : registry.Bare) (h : Described raw body bytes)
    (hentry : k.entry = .dispatched)
    (hresolve : registry.resolve raw.descriptor = some (.described k)) :
    registry.decodeAny bytes = .ok (.known value) ↔ registry.InBody k body value := by
  have hconstructed : Grammar.constructed registry registry.slots (.described k) =
      Value.known <$> Grammar.composite fun _ => Grammar.fields registry registry.slots k := by
    rw [← Grammar.composite_map, Grammar.constructed, Constructor.entry, hentry]
    rfl
  rw [hbare.decodeAny_iff h, Grammar.dispatched, hresolve]
  dsimp only
  rw [hconstructed, Grammar.map_iff]
  simp only [Grammar.composite, Grammar.described_iff_of_described h, Value.known.injEq,
    exists_eq_right']
  rfl

/-- Where nested streams are kept as such, the same bodies stand for them. -/
theorem decodeAny_iff_inBody_stream (hbare : registry.Bare) (h : Described raw body bytes)
    (hresolve : registry.resolve raw.descriptor = some .nestedStream) {s : SerializedBytes} :
    registry.decodeAny bytes = .ok (.serialized s) ↔
      registry.InBody .serializedBytes body (.serializedBytes s) := by
  have hconstructed : Grammar.constructed registry registry.slots .nestedStream =
      Value.serialized <$> Grammar.composite fun _ => Grammar.serializedBytes := by
    rw [← Grammar.composite_map]
    rfl
  rw [hbare.decodeAny_iff h, Grammar.dispatched, hresolve, inBody_serializedBytes_iff]
  dsimp only
  rw [hconstructed, Grammar.map_iff]
  simp only [Grammar.composite, Grammar.described_iff_of_described h, Value.serialized.injEq,
    Known.serializedBytes.injEq, exists_eq_right', exists_eq_left']

theorem fields_publicKey_iff (h : Described raw body bytes) :
    Grammar.fields registry registry.slots .publicKey registry.settings.limits 1 bytes value ↔
      raw = .symbol Decode.publicKeySymbol ∧ registry.InKeyBody body value := by
  change (Known.publicKey <$> PublicKey.mk <$> Grammar.described _) _ _ _ _ ↔ _
  simp only [Grammar.map_iff, Grammar.described_iff_of_described h, InKeyBody]
  constructor
  · rintro ⟨key, ⟨x509, ⟨hroom, hbody⟩, rfl⟩, rfl⟩
    split at hbody
    next hraw => exact ⟨hraw, hroom, x509, hbody, rfl⟩
    next => exact hbody.elim
  · rintro ⟨hraw, hroom, x509, hbody, rfl⟩
    rw [if_pos hraw]
    exact ⟨_, ⟨x509, ⟨hroom, hbody⟩, rfl⟩, rfl⟩

/-- A key is read behind its symbol, and nothing else is. -/
theorem decodeKind_publicKey_iff (hbare : registry.Bare) (h : Described raw body bytes) :
    registry.decodeRoot (.kind .publicKey) bytes = .ok value ↔
      raw = .symbol Decode.publicKeySymbol ∧ registry.InKeyBody body value :=
  (hbare.decodeKind_iff h).trans (fields_publicKey_iff h)

/-- A slot finds what a typed field finds. -/
theorem decodeAny_publicKey_iff (hbare : registry.Bare) (h : Described raw body bytes)
    (hresolve : registry.resolve raw.descriptor = some (.described .publicKey)) {held : Value} :
    registry.decodeAny bytes = .ok held ↔
      ∃ value, registry.decodeRoot (.kind .publicKey) bytes = .ok value ∧ held = .known value := by
  have hconstructed : Grammar.constructed registry registry.slots (.described .publicKey) =
      Value.known <$> Grammar.kind registry registry.slots .publicKey := rfl
  rw [hbare.decodeAny_iff h, Grammar.dispatched, hresolve]
  dsimp only
  rw [hconstructed, Grammar.map_iff]
  simp only [hbare.decodeKind_iff h]

end Bare

/-! ## Further descriptors -/

/-- The registry with a type registered under a further descriptor. -/
def withFurther (registry : Registry) (k : Kind) (d : Descriptor) : Registry :=
  (registry.registerAlias k d).2

/-- A standard registry in which a type is registered under a further descriptor. -/
def standardWith (settings : Settings) (k : Kind) (d : Descriptor) : Registry :=
  (standard settings).withFurther k d

variable {settings : Settings} {d d' : Descriptor}

theorem Bare.withFurther (h : registry.Bare) : (registry.withFurther k d).Bare where
  declared := .further k d h.declared
  not_required := h.not_required
  not_unwrapped := h.not_unwrapped

theorem withFurther_settings : (registry.withFurther k d).settings = registry.settings := rfl

theorem withFurther_resolve : (registry.withFurther k d).resolve d' =
    if d = d' then some (.described k) else registry.resolve d' :=
  resolve_register registry d d' _

theorem standard_bare (hframing : settings.framing = ⟨false, false⟩) :
    (standard settings).Bare where
  declared := standard_declared settings
  not_required := by rw [standard_settings, hframing]
  not_unwrapped := by rw [standard_settings, hframing]

theorem standardWith_settings : (standardWith settings k d).settings = settings := by
  rw [standardWith, withFurther_settings, standard_settings]

theorem standardWith_bare (hframing : settings.framing = ⟨false, false⟩) :
    (standardWith settings k d).Bare :=
  (standard_bare hframing).withFurther

theorem standardWith_resolve : (standardWith settings k d).resolve d' =
    if d = d' then some (.described k) else (standard settings).resolve d' :=
  withFurther_resolve

theorem standardWith_resolve_further :
    (standardWith settings k d).resolve d = some (.described k) := by
  rw [standardWith_resolve, if_pos rfl]

theorem standardWith_resolve_own (hk : k ∈ standardKinds) :
    (standardWith settings k d).resolve k.descriptor = some (.described k) := by
  rw [standardWith_resolve]
  split
  · rfl
  · exact standard_resolve_iff.mpr (List.mem_append_left _ (List.mem_map.mpr ⟨k, hk, rfl⟩))

theorem standardWith_resolve_stream (hd : d ≠ Kind.serializedBytes.descriptor) :
    (standardWith settings k d).resolve Kind.serializedBytes.descriptor = some .nestedStream := by
  rw [standardWith_resolve, if_neg hd]
  exact standard_resolve_iff.mpr
    (List.mem_append_right _ (List.mem_cons_of_mem _ List.mem_cons_self))

theorem standardWith_accepts_own : (standardWith settings k d).accepts k k.descriptor = true := by
  rw [accepts, beq_self_eq_true, Bool.true_or]

theorem standardWith_accepts_further : (standardWith settings k d).accepts k d = true := by
  rw [accepts, standardWith_resolve_further, Option.any_some, Constructor.produces,
    beq_self_eq_true, Bool.or_true]

/-- A value is decoded under the descriptor of its type, and its body is also written behind
another descriptor, which stands for the further one. -/
structure Respelt (settings : Settings) (k : Kind) (d : Descriptor) (raw : RawDescriptor)
    (bytes further : Bytes) (value : Known) : Prop where
  written : ∃ own body, own.descriptor = k.descriptor ∧ Described own body bytes ∧
    Described raw body further
  descriptor_eq : raw.descriptor = d
  decoded : (standardWith settings k d).decodeRoot (.kind k) bytes = .ok value

/-- Whatever is written under the further descriptor is what it is under the type's own. -/
def IsSynonym (settings : Settings) (k : Kind) (d : Descriptor) : Prop :=
  (standardWith settings k d).accepts k d = true ∧
    ∀ raw bytes further value, Respelt settings k d raw bytes further value →
      (standardWith settings k d).decodeRoot (.kind k) further = .ok value ∧
        ∃ held, (standardWith settings k d).decodeAny bytes = .ok held ∧
          (standardWith settings k d).decodeAny further = .ok held

/-- What is kept of this for every standard type. -/
structure ServesFurther (settings : Settings) (k : Kind) (d : Descriptor) : Prop where
  accepted : (standardWith settings k d).accepts k d = true
  /-- A typed field finds the same value, unless it is a key. -/
  typed : k ≠ .publicKey → ∀ {raw bytes further value},
    Respelt settings k d raw bytes further value →
      (standardWith settings k d).decodeRoot (.kind k) further = .ok value
  /-- So does a slot, unless it is a nested stream. -/
  slot : k ≠ .publicKey → k ≠ .serializedBytes → ∀ {raw bytes further value},
    Respelt settings k d raw bytes further value →
      (standardWith settings k d).decodeAny bytes = .ok (.known value) ∧
        (standardWith settings k d).decodeAny further = .ok (.known value)
  /-- Asked for as a nested stream, what a slot finds is the same stream. -/
  stream : k = .serializedBytes → ∀ {raw bytes further value},
    Respelt settings k d raw bytes further value →
      ∃ s held held', value = .serializedBytes s ∧
        (standardWith settings k d).decodeAny bytes = .ok held ∧
          (standardWith settings k d).decodeAny further = .ok held' ∧
            (held.downcast? (.kind .serializedBytes)).bind Held.stream? = some s ∧
              (held'.downcast? (.kind .serializedBytes)).bind Held.stream? = some s
  /-- A key is found behind its own symbol. -/
  key_of_symbol : k = .publicKey → ∀ {bytes further value},
    Respelt settings k d (.symbol Decode.publicKeySymbol) bytes further value →
      (standardWith settings k d).decodeRoot (.kind k) further = .ok value ∧
        (standardWith settings k d).decodeAny bytes = .ok (.known value) ∧
          (standardWith settings k d).decodeAny further = .ok (.known value)
  /-- Behind anything else there is none. -/
  no_key_of_other : k = .publicKey → ∀ {raw bytes further value},
    Respelt settings k d raw bytes further value → raw ≠ .symbol Decode.publicKeySymbol →
      (∀ value', (standardWith settings k d).decodeRoot (.kind k) further ≠ .ok value') ∧
        ∀ held, (standardWith settings k d).decodeAny further ≠ .ok held

section

variable {raw : RawDescriptor} {bytes further : Bytes} {value : Known}

/-- The body alone stands for the value. -/
theorem Respelt.inBody (h : Respelt settings k d raw bytes further value)
    (hframing : settings.framing = ⟨false, false⟩) (hentry : k.entry = .dispatched) :
    ∃ own body, own.descriptor = k.descriptor ∧ Described own body bytes ∧
      Described raw body further ∧ (standardWith settings k d).InBody k body value := by
  obtain ⟨⟨own, body, hown, hbytes, hfurther⟩, -, hdecoded⟩ := h
  have hbare : (standardWith settings k d).Bare := standardWith_bare hframing
  exact ⟨own, body, hown, hbytes, hfurther,
    (hbare.decodeKind_iff_inBody hbytes hentry (hown ▸ standardWith_accepts_own)).mp hdecoded⟩

/-- The body alone is the key, and in front of it there is the symbol of keys. -/
theorem Respelt.inKeyBody (h : Respelt settings .publicKey d raw bytes further value)
    (hframing : settings.framing = ⟨false, false⟩) :
    ∃ own body, own.descriptor = Kind.publicKey.descriptor ∧ Described own body bytes ∧
      Described raw body further ∧ (standardWith settings .publicKey d).InKeyBody body value := by
  obtain ⟨⟨own, body, hown, hbytes, hfurther⟩, -, hdecoded⟩ := h
  have hbare : (standardWith settings .publicKey d).Bare := standardWith_bare hframing
  exact ⟨own, body, hown, hbytes, hfurther, ((hbare.decodeKind_publicKey_iff hbytes).mp hdecoded).2⟩

/-- Under its own descriptor a nested stream is held as such, unless it was registered under it
anew. -/
theorem exists_decodeAny_stream {own : RawDescriptor} {body : Bytes}
    (hframing : settings.framing = ⟨false, false⟩) (hbytes : Described own body bytes)
    (hown : own.descriptor = Kind.serializedBytes.descriptor ∨ own.descriptor = d)
    {s : SerializedBytes}
    (hbody : (standardWith settings .serializedBytes d).InBody .serializedBytes body
      (.serializedBytes s)) :
    ∃ held, (standardWith settings .serializedBytes d).decodeAny bytes = .ok held ∧
      (held.downcast? (.kind .serializedBytes)).bind Held.stream? = some s := by
  have hbare : (standardWith settings .serializedBytes d).Bare := standardWith_bare hframing
  -- The two descriptors may be the same, and then the later registration counts for both.
  by_cases hd : own.descriptor = d
  · have hresolve : (standardWith settings .serializedBytes d).resolve own.descriptor =
        some (.described .serializedBytes) := hd ▸ standardWith_resolve_further
    exact ⟨_, (hbare.decodeAny_iff_inBody hbytes rfl hresolve).mpr hbody, rfl⟩
  · have hsame : own.descriptor = Kind.serializedBytes.descriptor := hown.resolve_right hd
    have hresolve : (standardWith settings .serializedBytes d).resolve own.descriptor =
        some .nestedStream := by
      rw [hsame]
      exact standardWith_resolve_stream fun heq => hd (hsame.trans heq.symm)
    exact ⟨_, (hbare.decodeAny_iff_inBody_stream hbytes hresolve).mpr hbody, rfl⟩

end

/-- **A further descriptor serves as the type's own does**, apart from what keys and nested streams
have of their own. -/
theorem serves_further (hframing : settings.framing = ⟨false, false⟩)
    (hstandard : k = .serializedBytes ∨ k ∈ standardKinds) (hthrowable : k ≠ .throwable) :
    ServesFurther settings k d := by
  have hbare : (standardWith settings k d).Bare := standardWith_bare hframing
  have hentry : k ≠ .publicKey → k.entry = .dispatched := by
    intro hkey
    cases k <;> first | rfl | contradiction
  constructor
  case accepted => exact standardWith_accepts_further
  case typed =>
    rintro hkey raw bytes further value h
    obtain ⟨own, body, -, -, hfurther, hbody⟩ := h.inBody hframing (hentry hkey)
    refine (hbare.decodeKind_iff_inBody hfurther (hentry hkey) ?_).mpr hbody
    rw [h.descriptor_eq]
    exact standardWith_accepts_further
  case slot =>
    rintro hkey hstream raw bytes further value h
    obtain ⟨own, body, hown, hbytes, hfurther, hbody⟩ := h.inBody hframing (hentry hkey)
    refine ⟨(hbare.decodeAny_iff_inBody hbytes (hentry hkey) ?_).mpr hbody,
      (hbare.decodeAny_iff_inBody hfurther (hentry hkey) ?_).mpr hbody⟩
    · rw [hown]
      exact standardWith_resolve_own (hstandard.resolve_left hstream)
    · rw [h.descriptor_eq]
      exact standardWith_resolve_further
  case stream =>
    rintro rfl raw bytes further value h
    obtain ⟨own, body, hown, hbytes, hfurther, hbody⟩ := h.inBody hframing rfl
    obtain ⟨s, rfl, -⟩ := inBody_serializedBytes_iff.mp hbody
    obtain ⟨held, hdecoded, hheld⟩ := exists_decodeAny_stream hframing hbytes (.inl hown) hbody
    obtain ⟨held', hdecoded', hheld'⟩ :=
      exists_decodeAny_stream hframing hfurther (.inr h.descriptor_eq) hbody
    exact ⟨s, held, held', rfl, hdecoded, hdecoded', hheld, hheld'⟩
  case key_of_symbol =>
    rintro rfl bytes further value h
    obtain ⟨own, body, hown, hbytes, hfurther, hbody⟩ := h.inKeyBody hframing
    have hfound := (hbare.decodeKind_publicKey_iff hfurther).mpr ⟨rfl, hbody⟩
    refine ⟨hfound, (hbare.decodeAny_publicKey_iff hbytes ?_).mpr ⟨value, h.decoded, rfl⟩,
      (hbare.decodeAny_publicKey_iff hfurther ?_).mpr ⟨value, hfound, rfl⟩⟩
    · rw [hown]
      exact standardWith_resolve_own (by decide)
    · rw [h.descriptor_eq]
      exact standardWith_resolve_further
  case no_key_of_other =>
    rintro rfl raw bytes further value h hother
    obtain ⟨own, body, -, -, hfurther, -⟩ := h.inKeyBody hframing
    have hnone : ∀ value', (standardWith settings .publicKey d).decodeRoot (.kind .publicKey)
        further ≠ .ok value' :=
      fun value' hfound => hother ((hbare.decodeKind_publicKey_iff hfurther).mp hfound).1
    refine ⟨hnone, fun held hheld => ?_⟩
    have hresolve : (standardWith settings .publicKey d).resolve raw.descriptor =
        some (.described .publicKey) := h.descriptor_eq ▸ standardWith_resolve_further
    obtain ⟨value', hfound, -⟩ := (hbare.decodeAny_publicKey_iff hfurther hresolve).mp hheld
    exact hnone value' hfound

/-! ## A number for byte strings -/

section

/-- Nothing is looked for around values. -/
private def bareSettings : Settings := ⟨.captureAll, ⟨4, 4⟩, ⟨false, false⟩⟩

/-- One byte, as a byte string and as the only field of a list. -/
private def keyBody : Bytes := [0xa0, 0x01, 0x07]

private def listBody : Bytes := [0xc0, 0x04, 0x01, 0xa0, 0x01, 0x07]

private def behindSymbol (text : String) (body : Bytes) : Bytes :=
  0x00 :: (Writing.symbol text ++ body)

private def behindSeven (body : Bytes) : Bytes := 0x00 :: ([0x53, 0x07] ++ body)

private theorem behindSymbol_described (text : String) (body : Bytes)
    (hlength : (Utf8.encode text).length < BigEndian.span 4) :
    Described (.symbol text) body (behindSymbol text body) :=
  ⟨_, rfl, .symbol (Writing.symbol_form hlength)⟩

private theorem behindSeven_described (body : Bytes) :
    Described (.code 7) body (behindSeven body) :=
  ⟨_, rfl, .code ⟨[0x07], ⟨(0x53, 1), by decide, rfl, rfl⟩, by decide⟩⟩

private theorem keyBody_binary : BinaryOf [0x07] keyBody :=
  ⟨(0xa0, 1), by decide, _, rfl, [0x01], rfl, rfl, rfl⟩

private theorem listBody_list : ListOf 4 [keyBody] listBody :=
  .inr ⟨(0xc0, 1), by decide, _, rfl, by decide, [0x01], rfl, rfl, [0x04], rfl, rfl, rfl⟩

private theorem bareSettings_bare : (standardWith bareSettings k d).Bare := standardWith_bare rfl

/-- A type that is a wrapped byte string has the list for a body. -/
private theorem listBody_inBody {α : Type} {g : Grammar α} {wrap : α → Known}
    {bytesOf : α → Bytes} {value : α}
    (hfields : Grammar.fields (standardWith bareSettings k d) (standardWith bareSettings k d).slots k
      = wrap <$> g)
    (hsplits : Splits g fun _ items value =>
      ∃ content, items = [content] ∧ BinaryOf (bytesOf value) content)
    (hvalue : bytesOf value = [0x07]) :
    (standardWith bareSettings k d).InBody k listBody (wrap value) := by
  have hbinary : BinaryOf (bytesOf value) keyBody := hvalue ▸ keyBody_binary
  rw [InBody, standardWith_settings, hfields]
  exact ⟨by decide, (Grammar.listed_iff fun _ => hsplits.map wrap).mpr
    ⟨rfl, by decide, _, listBody_list, value, ⟨_, rfl, hbinary⟩, rfl⟩⟩

private theorem key_respelt : Respelt bareSettings .publicKey (.code 7) (.code 7)
    (behindSymbol Decode.publicKeySymbol keyBody) (behindSeven keyBody) (.publicKey ⟨[0x07]⟩) := by
  have hbytes := behindSymbol_described Decode.publicKeySymbol keyBody (by decide +kernel)
  refine ⟨⟨_, _, by decide +kernel, hbytes, behindSeven_described _⟩, rfl, ?_⟩
  rw [bareSettings_bare.decodeKind_publicKey_iff hbytes, InKeyBody, standardWith_settings]
  exact ⟨rfl, by decide, _, Grammar.binary_iff.mpr ⟨rfl, keyBody_binary⟩, rfl⟩

private theorem stream_inBody : (standardWith bareSettings .serializedBytes (.code 7)).InBody
    .serializedBytes listBody (.serializedBytes ⟨[0x07]⟩) :=
  listBody_inBody rfl Grammar.splits_serializedBytes rfl

private theorem stream_described : Described (.symbol "net.corda.core.serialization.SerializedBytes")
    listBody (behindSymbol "net.corda.core.serialization.SerializedBytes" listBody) :=
  behindSymbol_described _ listBody (by decide +kernel)

private theorem stream_respelt : Respelt bareSettings .serializedBytes (.code 7) (.code 7)
    (behindSymbol "net.corda.core.serialization.SerializedBytes" listBody) (behindSeven listBody)
    (.serializedBytes ⟨[0x07]⟩) := by
  have hown : (RawDescriptor.symbol "net.corda.core.serialization.SerializedBytes").descriptor =
      Kind.serializedBytes.descriptor := rfl
  refine ⟨⟨_, _, hown, stream_described, behindSeven_described _⟩, rfl, ?_⟩
  exact (bareSettings_bare.decodeKind_iff_inBody stream_described rfl
    (hown ▸ standardWith_accepts_own)).mpr stream_inBody

/-- A key is not read behind a number, and a nested stream that stands behind one is held as a
value of its type. -/
theorem not_isSynonym : ¬ IsSynonym bareSettings .publicKey (.code 7) ∧
    ¬ IsSynonym bareSettings .serializedBytes (.code 7) := by
  constructor
  · rintro ⟨-, hsame⟩
    obtain ⟨hfurther, -⟩ := hsame _ _ _ _ key_respelt
    obtain ⟨hsymbol, -⟩ :=
      (bareSettings_bare.decodeKind_publicKey_iff (behindSeven_described _)).mp hfurther
    cases hsymbol
  · rintro ⟨-, hsame⟩
    obtain ⟨-, held, hown, hfurther⟩ := hsame _ _ _ _ stream_respelt
    have hseven : (standardWith bareSettings .serializedBytes (.code 7)).resolve
        (RawDescriptor.code 7).descriptor = some (.described .serializedBytes) :=
      standardWith_resolve_further
    have hstream := (bareSettings_bare.decodeAny_iff_inBody_stream stream_described
      (standardWith_resolve_stream (by decide +kernel))).mpr stream_inBody
    have hvalue := (bareSettings_bare.decodeAny_iff_inBody (behindSeven_described listBody) rfl
      hseven).mpr stream_inBody
    obtain rfl : .serialized ⟨[0x07]⟩ = held := Except.ok.inj (hstream.symm.trans hown)
    cases hvalue.symm.trans hfurther

private theorem sequence_respelt : Respelt bareSettings .byteSequence (.code 7) (.code 7)
    (behindSymbol Kind.byteSequence.descriptorText listBody) (behindSeven listBody)
    (.byteSequence ⟨[0x07]⟩) := by
  have hbytes :=
    behindSymbol_described Kind.byteSequence.descriptorText listBody (by decide +kernel)
  have hown : (RawDescriptor.symbol Kind.byteSequence.descriptorText).descriptor =
      Kind.byteSequence.descriptor := rfl
  refine ⟨⟨_, _, hown, hbytes, behindSeven_described _⟩, rfl, ?_⟩
  exact (bareSettings_bare.decodeKind_iff_inBody hbytes rfl (hown ▸ standardWith_accepts_own)).mpr
    (listBody_inBody rfl Grammar.splits_byteSequence rfl)

/-- Byte sequences are read behind the number as behind their fingerprint. -/
theorem seven_serves_byteSequence :
    (standardWith bareSettings .byteSequence (.code 7)).decodeRoot (.kind .byteSequence)
        (behindSeven listBody) = .ok (.byteSequence ⟨[0x07]⟩) ∧
      (standardWith bareSettings .byteSequence (.code 7)).decodeAny (behindSeven listBody) =
        .ok (.known (.byteSequence ⟨[0x07]⟩)) := by
  have hserves : ServesFurther bareSettings .byteSequence (.code 7) :=
    serves_further rfl (.inr (by decide)) (by decide)
  exact ⟨hserves.typed (by decide) sequence_respelt,
    (hserves.slot (by decide) (by decide) sequence_respelt).2⟩

end

end Registry

end AmqpEnvelope
