import AmqpEnvelope.Proofs.Decode.Reachable
import AmqpEnvelope.Proofs.Framing.RootSlot
import AmqpEnvelope.Proofs.Lockstep.Decode

/-!
# Typed fields and slots

A composite comes in by two ways.  A typed field enters it and then compares the descriptor with
what its type accepts; a slot looks at the descriptor first and leaves the rest to the
constructor that is registered for it.  Where that constructor is registered for the type of
the field, the two ways lead to the same: to one value, which the slot holds in its own way, or
to one error, and to the same cursor (`Registry.field_agrees_with_slot`).

The descriptor that is looked at is the one that is entered, and the guard of dispatch never
applies, so both ways read the same fields with the same slots in them.
-/

namespace AmqpEnvelope

open Cursor

/-! ## What a slot holds for a value -/

/-- A slot holds a value of a described type as such, or as a nested stream if that is what the
constructor makes of it. -/
inductive Constructor.Yields : Constructor → Known → Value → Prop
  | described (k : Kind) (value : Known) : Yields (.described k) value (.known value)
  | nestedStream (stream : SerializedBytes) :
      Yields .nestedStream (.serializedBytes stream) (.serialized stream)

/-- A typed field and a slot come to the same: to a value and what the slot holds for it, or to an
error, and in any case to one cursor. -/
inductive Constructor.Matches (constructor : Constructor) :
    EStateM.Result DecodeError Cursor Known → EStateM.Result DecodeError Cursor Value → Prop
  | ok {typed : Known} {held : Value} (h : constructor.Yields typed held) (c : Cursor) :
      Matches constructor (.ok typed c) (.ok held c)
  | error (e : DecodeError) (c : Cursor) : Matches constructor (.error e c) (.error e c)

theorem Constructor.matches_known (k : Kind) (reader : Decoding Known) (c : Cursor) :
    (Constructor.described k).Matches (reader c) ((Value.known <$> reader) c) := by
  simp only [Functor.map, EStateM.map]
  cases reader c with
  | ok value c₁ => exact .ok (.described k value) c₁
  | error e c₁ => exact .error e c₁

theorem Constructor.matches_serialized (reader : Decoding SerializedBytes) (c : Cursor) :
    Constructor.nestedStream.Matches ((Known.serializedBytes <$> reader) c)
      ((Value.serialized <$> reader) c) := by
  simp only [Functor.map, EStateM.map]
  cases reader c with
  | ok stream c₁ => exact .ok (.nestedStream stream) c₁
  | error e c₁ => exact .error e c₁

namespace Decode

variable {α : Type} {registry : Registry} {resolver : Resolver} {k : Kind} {d : Descriptor}
  {c c₁ : Cursor}

/-! ## The two ways in -/

/-- The descriptor of a composite that can be entered can be seen in front of it. -/
theorem peekDescriptor_of_enterComposite (hc : c.Coherent) (h : enterComposite c = .ok d c₁) :
    peekDescriptor c = .ok (some d) c := by
  obtain ⟨opening, c₂, hopen, hrest⟩ := bind_eq_ok_iff.mp h
  obtain ⟨_, c₃, -, hpure⟩ := bind_eq_ok_iff.mp hrest
  obtain ⟨rfl, -⟩ := pure_eq_ok_iff.mp hpure
  obtain ⟨_, _, raw, rfl, ⟨-, head, rfl, hraw⟩, -, hopens⟩ := (enters_beginDescribed hc).sound hopen
  refine peekDescriptor_eq_ok hc hopens.offers ⟨head, raw, [], ?_, ?_, rfl⟩
  · rw [List.append_nil]
  · exact Grammar.descriptor_of_bounds hraw

theorem map_entered {β : Type} (f : α → β) (fields : Decoding α) :
    f <$> entered fields = entered (f <$> fields) := by
  simp only [entered, map_bind, map_pure, bind_map_left]

theorem map_begun {β : Type} (f : α → β) (fields : Decoding α) :
    f <$> begun k fields = begun k (f <$> fields) := by
  simp only [begun, map_bind]

theorem map_composite {β : Type} (f : α → β) (fields : Decoding α) :
    f <$> composite registry k fields = composite registry k (f <$> fields) := by
  simp only [composite, map_bind]
  refine bind_congr fun offset => bind_congr fun found => ?_
  split
  · rw [← map_begun, map_bind, bind_map_left]
    simp only [map_bind, map_pure]
  · rfl

/-- A field does not refuse a composite whose descriptor its type accepts. -/
theorem composite_eq (hc : c.Coherent) (hpeek : peekDescriptor c = .ok (some d) c)
    (haccepts : registry.accepts k d = true) (fields : Decoding α) :
    composite registry k fields c = entered (begun k fields) c := by
  change (enterComposite >>= _) c = (enterComposite >>= _) c
  cases henter : enterComposite c with
  | error e c₁ => simp only [bind, EStateM.bind, henter]
  | ok found c₁ =>
      -- What is entered is what was seen before.
      have hfound := peekDescriptor_of_enterComposite hc henter
      rw [hpeek] at hfound
      cases hfound
      rw [bind_of_ok henter, bind_of_ok henter, if_pos haccepts]

theorem map_composite_eq {β : Type} (hc : c.Coherent) (hpeek : peekDescriptor c = .ok (some d) c)
    (haccepts : registry.accepts k d = true) (f : α → β) (fields : Decoding α) :
    (f <$> composite registry k fields) c = entered (f <$> begun k fields) c := by
  rw [← map_entered]
  simp only [Functor.map, EStateM.map, composite_eq hc hpeek haccepts]

/-- Once a constructor has been found for the descriptor, it does what a field of its type does. -/
theorem matches_kind (hc : c.Coherent) (hpeek : peekDescriptor c = .ok (some d) c)
    {constructor : Constructor} (htyped : constructor.IsTyped)
    (hproduces : constructor.produces = some k) (haccepts : registry.accepts k d = true) :
    constructor.Matches (kind registry resolver k c) (invoke registry resolver constructor c) := by
  rcases htyped with ⟨k', rfl⟩ | rfl
  · cases hproduces
    -- A self-describing type has one way in only; the others enter before or after the look.
    have hinvoke : invoke registry resolver (.described k) c =
        (Value.known <$> kind registry resolver k) c := by
      unfold invoke kind
      simp only [Constructor.entry]
      cases k.entry with
      | selfDescribing => rfl
      | dispatched => exact (map_composite_eq hc hpeek haccepts _ _).symm
    rw [hinvoke]
    exact Constructor.matches_known k _ c
  · cases hproduces
    have hkind : kind registry resolver .serializedBytes c =
        (Known.serializedBytes <$> entered (begun .serializedBytes serializedBytesFields)) c := by
      rw [map_entered, map_begun]
      exact composite_eq hc hpeek haccepts _
    have hinvoke : invoke registry resolver .nestedStream c =
        (Value.serialized <$> entered (begun .serializedBytes serializedBytesFields)) c := by
      rw [map_entered]
      rfl
    rw [hkind, hinvoke]
    exact Constructor.matches_serialized _ c

end Decode

namespace Registry

variable {registry : Registry} {k : Kind} {d : Descriptor} {constructor : Constructor}

/-- A typed field accepts what a constructor that is registered for its type yields. -/
theorem accepts_of_produces (hresolve : registry.resolve d = some constructor)
    (hproduces : constructor.produces = some k) : registry.accepts k d = true := by
  simp only [accepts, hresolve, Option.any_some, hproduces, beq_self_eq_true, Bool.or_true]

theorem decodeTarget_matches (hregistry : registry.Declared) {c : Cursor} (hc : c.Coherent)
    (hpeek : peekDescriptor c = .ok (some d) c) (hresolve : registry.resolve d = some constructor)
    (hproduces : constructor.produces = some k) :
    constructor.Matches (registry.decodeTarget (.kind k) c) (registry.decodeSlot c) := by
  have hslot : registry.decodeSlot c = Decode.dispatch registry d c := slot_of_peekDescriptor hpeek
  have hinvoke : Decode.dispatchWith registry (Decode.dispatch registry) d =
      Decode.invoke registry (Decode.dispatch registry) constructor := by
    unfold Decode.dispatchWith
    rw [hresolve]
  rw [hslot, Decode.dispatch_eq hregistry hc, hinvoke]
  exact Decode.matches_kind hc hpeek (hregistry.isTyped_of_resolve d constructor hresolve)
    hproduces (accepts_of_produces hresolve hproduces)

/-- In front of a descriptor of a described type, a stream of any type is one of this type. -/
theorem decodeAny_eq_known (hregistry : registry.Declared) {bytes : Bytes} {enveloped : Bool}
    {root : Cursor} (hroot : registry.rootSlot bytes = .ok enveloped root)
    (hpeek : peekDescriptor root = .ok (some d) root)
    (hresolve : registry.resolve d = some (.described k)) :
    registry.decodeAny bytes = Value.known <$> registry.decodeRoot (.kind k) bytes := by
  have hmatches :=
    decodeTarget_matches hregistry (coherent_of_rootSlot hroot) hpeek hresolve rfl
  have hslot : registry.decodeTarget .slot root =
      (Value.known <$> registry.decodeTarget (.kind k)) root := by
    change registry.decodeSlot root = _
    simp only [Functor.map, EStateM.map]
    generalize registry.decodeTarget (.kind k) root = typed at hmatches
    generalize registry.decodeSlot root = held at hmatches
    cases hmatches with
    | error e c => rfl
    | ok hyields c =>
        cases hyields
        rfl
  have hread : registry.readStream (registry.decodeTarget .slot) bytes =
      registry.readStream (Value.known <$> registry.decodeTarget (.kind k)) bytes := by
    rw [readStream_of_rootSlot _ hroot, readStream_of_rootSlot _ hroot]
    simp only [bind, EStateM.bind, hslot]
  rw [decodeAny, decodeRoot, decodeRoot, hread, readStream_map]
  cases registry.readStream (registry.decodeTarget (.kind k)) bytes with
  | ok value left => rfl
  | error e left => rfl

/-- **A typed field and a slot decode the same composite the same way.**  Let a constructor be
registered for a type, under the type's own descriptor or another one.  At a reachable cursor
in front of that descriptor, the field of the type and the slot come to the same, and so do
the streams whose root has it. -/
theorem field_agrees_with_slot (hregistry : registry.Declared)
    (hresolve : registry.resolve d = some constructor) (hproduces : constructor.produces = some k) :
    (∀ {bytes : Bytes} {limits : Limits} {c : Cursor}, Reachable bytes limits c →
      peekDescriptor c = .ok (some d) c →
        constructor.Matches (registry.decodeTarget (.kind k) c) (registry.decodeSlot c)) ∧
    ∀ {bytes : Bytes} {enveloped : Bool} {root : Cursor},
      registry.rootSlot bytes = .ok enveloped root → peekDescriptor root = .ok (some d) root →
        (∃ typed held, registry.decodeRoot (.kind k) bytes = .ok typed ∧
          registry.decodeAny bytes = .ok held ∧ constructor.Yields typed held) ∨
        ∃ e, registry.decodeRoot (.kind k) bytes = .error e ∧
          registry.decodeAny bytes = .error e := by
  refine ⟨fun h hpeek => decodeTarget_matches hregistry h.coherent hpeek hresolve hproduces, ?_⟩
  intro bytes enveloped root hroot hpeek
  have hmatches :=
    decodeTarget_matches hregistry (coherent_of_rootSlot hroot) hpeek hresolve hproduces
  unfold decodeAny decodeRoot
  -- From the root slot on, only the value differs, and what follows does not look at it.
  rw [readStream_of_rootSlot _ hroot, readStream_of_rootSlot _ hroot]
  change constructor.Matches _ (registry.decodeTarget .slot root) at hmatches
  simp only [bind, EStateM.bind]
  generalize registry.decodeTarget (.kind k) root = typed at hmatches
  generalize registry.decodeTarget .slot root = held at hmatches
  cases hmatches with
  | error e c => exact .inr ⟨e, rfl, rfl⟩
  | @ok typed held h c =>
      dsimp only
      rw [leaveRoot_eq enveloped typed, leaveRoot_eq enveloped held]
      simp only [Functor.map, EStateM.map]
      cases leaveRoot enveloped () c with
      | ok _ _ => exact .inl ⟨typed, held, rfl, rfl, h⟩
      | error e _ => exact .inr ⟨e, rfl, rfl⟩

/-- The spare duration is refused both ways, and as a stream of its own it is decoded both ways. -/
theorem duration_field_agrees_with_slot :
    let spareDuration := inFrontOfSpare nineSeconds
    peekDescriptor spareDuration = .ok (some (.code 7)) spareDuration ∧
      numberedDurations.decodeTarget (.kind .duration) spareDuration =
        .error (.mismatch (.exhausted .list "described type" 1) 4) spareDuration ∧
      (Constructor.described .duration).Matches
        (numberedDurations.decodeTarget (.kind .duration) spareDuration)
        (numberedDurations.decodeSlot spareDuration) ∧
      numberedDurations.decodeRoot (.kind .duration) nineSeconds = .ok (.duration ⟨9, 0⟩) ∧
      ((∃ typed held, numberedDurations.decodeRoot (.kind .duration) nineSeconds = .ok typed ∧
          numberedDurations.decodeAny nineSeconds = .ok held ∧
            (Constructor.described .duration).Yields typed held) ∨
        ∃ e, numberedDurations.decodeRoot (.kind .duration) nineSeconds = .error e ∧
          numberedDurations.decodeAny nineSeconds = .error e) :=
  have hagrees := field_agrees_with_slot numberedDurations_declared
    (show numberedDurations.resolve (.code 7) = some (.described .duration) from rfl) rfl
  ⟨by rfl, by rfl, hagrees.1 (reachable_inFrontOfSpare nineSeconds) (by rfl), by rfl,
    hagrees.2 (by rfl) (by rfl)⟩

end Registry

end AmqpEnvelope
