import AmqpEnvelope.Proofs.Decode.Peeking

/-!
# Used-up containers

A container may declare more bytes than its elements take.  Once its last element has been
claimed, nothing is read from what is left: every operation that reads a value fails, and it
fails before it has done anything (`Registry.TakesElement.error_of_used_up`).

The decoders of slots and of values that may be null look at the bytes first, and a look knows
nothing of elements.  So what is shown of a reader is that it is `Sealed`: behind any number of
looks it comes to a claim or to an error.
-/

namespace AmqpEnvelope

namespace Cursor

/-- The elements of the innermost frame have all been claimed. -/
def UsedUp (c : Cursor) : Prop :=
  ∃ frame outer, c.frames = frame :: outer ∧ frame.count ≤ frame.consumed

variable {α β : Type} {reader : Decoding α} {next : α → Decoding β}

/-! ## Looking -/

/-- The cursor stays, whatever the reader answers. -/
def Looks (reader : Decoding α) : Prop := ∀ c, after reader c = c

theorem looks_asks (f : Cursor → α) : Looks (asks f) := fun _ => rfl

theorem looks_get : Looks (get : Decoding Cursor) := fun _ => rfl

theorem looks_probe (reader : Decoding α) : Looks (probe reader) := by
  intro c
  simp only [after, probe]
  cases reader c <;> rfl

theorem looks_peekDescriptor : Looks peekDescriptor := after_peekDescriptor

/-! ## Refusing -/

/-- In a frame without an element left the reader fails and leaves the cursor as it is, up to
the note of the types that were begun. -/
def Sealed (reader : Decoding α) : Prop :=
  ∀ ⦃c : Cursor⦄, c.UsedUp → ∃ e names, reader c = .error e { c with entered := names }

theorem Sealed.throw (e : DecodeError) : Sealed (throw e : Decoding α) :=
  fun c _ => ⟨e, c.entered, rfl⟩

theorem Sealed.bind (h : Sealed reader) (next : α → Decoding β) : Sealed (reader >>= next) := by
  intro c hc
  obtain ⟨e, names, hreader⟩ := h hc
  exact ⟨e, names, by simp only [Bind.bind, EStateM.bind, hreader]⟩

theorem Sealed.map (h : Sealed reader) (f : α → β) : Sealed (f <$> reader) := by
  intro c hc
  obtain ⟨e, names, hreader⟩ := h hc
  exact ⟨e, names, by simp only [Functor.map, EStateM.map, hreader]⟩

/-- A look that is followed by a refusal either way is a refusal. -/
theorem Looks.bind (h : Looks reader) (hnext : ∀ a, Sealed (next a)) :
    Sealed (reader >>= next) := by
  intro c hc
  have hstays := h c
  unfold after at hstays
  simp only [Bind.bind, EStateM.bind]
  cases hreader : reader c with
  | ok a c' =>
      rw [hreader] at hstays
      obtain rfl : c' = c := hstays
      exact hnext a hc
  | error e c' =>
      rw [hreader] at hstays
      obtain rfl : c' = c := hstays
      exact ⟨e, c'.entered, rfl⟩

/-- Noting a type does not open what is sealed. -/
theorem Sealed.begun (k : Kind) (h : Sealed reader) : Sealed (Decode.begun k reader) :=
  fun _ hc => h hc

/-! ## Values -/

theorem sealed_claim (what : String) : Sealed (claim what) := by
  rintro c ⟨frame, outer, hframes, hfull⟩
  exact ⟨_, c.entered, claim_of_full hframes hfull⟩

theorem sealed_beginValue (what : String) : Sealed (beginValue what) := (sealed_claim what).bind _

theorem sealed_read (p : Primitive) : Sealed (read p) := (sealed_beginValue p.name).bind _

theorem sealed_beginDescribed : Sealed beginDescribed := (sealed_beginValue _).bind _

theorem sealed_expectSymbol (expected : String) : Sealed (expectSymbol expected) :=
  sealed_beginDescribed.bind _

theorem sealed_enterList : Sealed enterList := (sealed_beginValue _).bind _

theorem sealed_enterMap : Sealed enterMap := (sealed_beginValue _).bind _

theorem sealed_enterComposite : Sealed enterComposite := sealed_beginDescribed.bind _

theorem sealed_skip : Sealed skip := (sealed_claim _).bind _

theorem sealed_capture : Sealed capture := by
  intro c hc
  obtain ⟨e, names, hskip⟩ := sealed_skip hc
  exact ⟨e, names, by simp only [capture, hskip]⟩

theorem sealed_listOf (reader : Decoding α) : Sealed (listOf reader) := sealed_enterList.bind _

/-- The null in front of a value that may be null is not there for the taking either. -/
theorem Sealed.nullable (h : Sealed reader) : Sealed (nullable reader) := by
  unfold Cursor.nullable
  refine (looks_asks _).bind fun isNull => ?_
  split
  · exact (sealed_read .null).bind _
  · exact h.bind _

end Cursor

/-! ## Described types, slots and dispatch -/

namespace Decode

open Cursor

variable {registry : Registry} {resolver : Resolver}

theorem sealed_slot (hresolver : ∀ d, Sealed (resolver d)) : Sealed (slot resolver) := by
  unfold slot
  refine (looks_asks _).bind fun isNull => ?_
  split
  · exact (sealed_read .null).bind _
  · refine looks_peekDescriptor.bind fun found => ?_
    cases found with
    | some d => exact hresolver d
    | none => exact looks_get.bind fun c => .throw _

theorem sealed_composite {α : Type} (k : Kind) (fields : Decoding α) :
    Sealed (composite registry k fields) :=
  (looks_asks _).bind fun _ => sealed_enterComposite.bind _

/-- The types that are entered by their own readers begin with a claim, or refuse at once. -/
theorem sealed_fields_of_selfDescribing {k : Kind} (hk : k.entry = .selfDescribing) :
    Sealed (fields registry resolver k) := by
  cases k with
  | publicKey => exact ((sealed_expectSymbol _).bind _).map _
  | throwable => exact (looks_asks _).bind fun _ => .throw _
  | _ => cases hk

theorem sealed_kind (k : Kind) : Sealed (kind registry resolver k) := by
  unfold kind
  cases hk : k.entry with
  | selfDescribing => exact (sealed_fields_of_selfDescribing hk).begun k
  | dispatched => exact sealed_composite k _

theorem sealed_target (hresolver : ∀ d, Sealed (resolver d)) :
    ∀ t, Sealed (target registry resolver t)
  | .slot => sealed_slot hresolver
  | .kind k => sealed_kind k

theorem sealed_invoke {c : Constructor} (hc : c.IsTyped) : Sealed (invoke registry resolver c) := by
  unfold invoke
  cases hentry : c.entry with
  | dispatched => exact sealed_enterComposite.bind _
  | selfDescribing =>
      rcases hc with ⟨k, rfl⟩ | rfl
      · exact ((sealed_fields_of_selfDescribing hentry).begun k).map _
      · cases hentry

theorem sealed_captureComposite (d : Descriptor) : Sealed (captureComposite d) :=
  (looks_asks _).bind fun _ => (looks_probe _).bind fun _ => sealed_capture.bind _

/-- Resolving, rejecting and capturing all come to a claim or to an error. -/
theorem sealed_dispatchWith (hregistry : registry.Declared) (resolver : Resolver)
    (d : Descriptor) : Sealed (dispatchWith registry resolver d) := by
  unfold dispatchWith
  cases hresolve : registry.resolve d with
  | some c => exact sealed_invoke (hregistry.isTyped_of_resolve d c hresolve)
  | none =>
      refine looks_get.bind fun c => ?_
      cases registry.settings.unknownTypes.actionFor c.atRootSlot with
      | reject => exact .throw _
      | capture => exact sealed_captureComposite d

theorem sealed_dispatch (hregistry : registry.Declared) (d : Descriptor) :
    Sealed (dispatch registry d) := by
  intro c hc
  rw [dispatch]
  exact sealed_dispatchWith hregistry _ d hc

theorem sealed_checked (hresolver : ∀ d, Sealed (resolver d)) (expected : Descriptor) :
    Sealed (checked resolver expected) := by
  unfold checked
  refine looks_peekDescriptor.bind fun found => ?_
  cases found with
  | none => exact (looks_asks _).bind fun _ => .throw _
  | some d =>
      dsimp only
      split
      · exact hresolver expected
      · exact (looks_asks _).bind fun _ => .throw _

end Decode

namespace Registry

open Cursor

variable {registry : Registry}

/-- The operations that read a value, under a registry. -/
inductive TakesElement (registry : Registry) : {α : Type} → Decoding α → Prop
  | read (p : Primitive) : TakesElement registry (read p)
  | beginDescribed : TakesElement registry beginDescribed
  | expectSymbol (expected : String) : TakesElement registry (expectSymbol expected)
  | enterComposite : TakesElement registry enterComposite
  | enterList : TakesElement registry enterList
  | enterMap : TakesElement registry enterMap
  | skip : TakesElement registry skip
  | capture : TakesElement registry capture
  | decodeKind (k : Kind) : TakesElement registry (registry.decodeKind k)
  | decodeSlot : TakesElement registry registry.decodeSlot
  | decodeAs (d : Descriptor) : TakesElement registry (registry.decodeAs d)
  | decodeList (t : Target) : TakesElement registry (listOf (registry.decodeTarget t))
  | decodeNullable (t : Target) : TakesElement registry (nullable (registry.decodeTarget t))

theorem TakesElement.isSealed (hregistry : registry.Declared) {α : Type} {reader : Decoding α}
    (hreader : TakesElement registry reader) : Sealed reader := by
  have hdispatch := Decode.sealed_dispatch hregistry
  cases hreader with
  | read p => exact sealed_read p
  | beginDescribed => exact sealed_beginDescribed
  | expectSymbol expected => exact sealed_expectSymbol expected
  | enterComposite => exact sealed_enterComposite
  | enterList => exact sealed_enterList
  | enterMap => exact sealed_enterMap
  | skip => exact sealed_skip
  | capture => exact sealed_capture
  | decodeKind k => exact Decode.sealed_kind k
  | decodeSlot => exact Decode.sealed_slot hdispatch
  | decodeAs d => exact Decode.sealed_checked hdispatch d
  | decodeList t => exact sealed_listOf _
  | decodeNullable t => exact (Decode.sealed_target hdispatch t).nullable

/-- **A used-up container is sealed.**  Where the innermost frame has claimed all elements that
it declares, no operation reads a value from the bytes behind them, be it null, a composite
of a registered type or the bytes of one that is not: each fails, and the cursor is where it
was, with the frames and the claims that it had. -/
theorem TakesElement.error_of_used_up (hregistry : registry.Declared) {α : Type}
    {reader : Decoding α} (hreader : TakesElement registry reader) {c : Cursor} {frame : Frame}
    {outer : List Frame} (hframes : c.frames = frame :: outer)
    (hfull : frame.consumed = frame.count) :
    ∃ e names, reader c = .error e { c with entered := names } :=
  hreader.isSealed hregistry ⟨frame, outer, hframes, Nat.le_of_eq hfull.symm⟩

/-- A surplus null looks like the value of a slot, and is none. -/
theorem surplus_null_refused :
    let beforeSurplus := inFrontOfSpare [0x40]
    Reachable [0xc0, 0x03, 0x01, 0x40, 0x40] ⟨4, 10⟩ beforeSurplus ∧
      beforeSurplus.frames = [⟨.list, 0, some 5, 1, 1⟩] ∧ beforeSurplus.atNull = true ∧
        ∃ e names, numberedDurations.decodeSlot beforeSurplus =
          .error e { beforeSurplus with entered := names } :=
  ⟨reachable_inFrontOfSpare [0x40], by decide, by decide,
    TakesElement.error_of_used_up numberedDurations_declared .decodeSlot rfl rfl⟩

end Registry

end AmqpEnvelope
