import AmqpEnvelope.Proofs.Framing.Root

/-!
# The root slot

A stream is read up to its root slot before the root value is looked at, and what follows the
value is read without a look at it.  So readers that do the same at the root slot do the same
with the stream.
-/

namespace AmqpEnvelope

namespace Cursor

variable {α : Type} {framing : Framing} {c root : Cursor} {enveloped : Bool}

/-- Read up to the root slot and mark it; the result says whether an envelope is open. -/
def toRoot (framing : Framing) : Decoding Bool := do
  let _ ← readPreamble framing
  let enveloped ← unwrap framing
  markRoot
  return enveloped

/-- Leave the envelope, if one is open, and require the input to end. -/
def leaveRoot (enveloped : Bool) (value : α) : Decoding α := do
  if enveloped then exitEnvelope
  finish value

/-- A stream is what stands before its root value, that value, and what follows. -/
theorem rootValue_eq_toRoot (framing : Framing) (reader : Decoding α) :
    rootValue framing reader = (do
      let enveloped ← toRoot framing
      let value ← reader
      leaveRoot enveloped value) := by
  have hroot : ∀ enveloped, atRoot enveloped reader >>= finish = (do
      markRoot
      let value ← reader
      leaveRoot enveloped value) := by
    rintro (_ | _) <;> simp [atRoot, leaveRoot]
  simp only [rootValue_eq, framed, toRoot, bind_assoc, pure_bind, hroot]

theorem rootValue_of_toRoot (reader : Decoding α) (h : toRoot framing c = .ok enveloped root) :
    rootValue framing reader c = (reader >>= leaveRoot enveloped) root := by
  rw [rootValue_eq_toRoot, bind_of_ok h]

/-- Readers that do the same at the root slot, if that is reached at all, do the same with
the stream. -/
theorem rootValue_congr {reader reader' : Decoding α}
    (h : ∀ enveloped root, toRoot framing c = .ok enveloped root → reader' root = reader root) :
    rootValue framing reader' c = rootValue framing reader c := by
  rw [rootValue_eq_toRoot, rootValue_eq_toRoot]
  cases hroot : toRoot framing c with
  | ok enveloped root =>
      rw [bind_of_ok hroot, bind_of_ok hroot]
      simp only [bind, EStateM.bind, h enveloped root hroot]
  | error e c₁ => simp only [bind, EStateM.bind, hroot]

/-- What follows the root value does not depend on it. -/
theorem leaveRoot_eq (enveloped : Bool) (value : α) :
    leaveRoot enveloped value = (fun _ => value) <$> leaveRoot enveloped () := by
  have hfinish : (finish value : Decoding α) = (fun _ => value) <$> finish () := by
    funext c
    simp only [Functor.map, EStateM.map, finish_eq]
    split
    · rfl
    · rfl
  cases enveloped with
  | false => simpa [leaveRoot] using hfinish
  | true => simp [leaveRoot, hfinish]

/-- What is made of the root value may be made of the stream. -/
theorem rootValue_map {β : Type} (f : α → β) (reader : Decoding α) :
    rootValue framing (f <$> reader) = f <$> rootValue framing reader := by
  have hleave : ∀ (enveloped : Bool) (value : α),
      leaveRoot enveloped (f value) = f <$> leaveRoot enveloped value := by
    intro enveloped value
    rw [leaveRoot_eq enveloped (f value), leaveRoot_eq enveloped value, Functor.map_map]
  simp only [rootValue_eq_toRoot, map_bind, bind_map_left, hleave]

/-- The slot that was reached is the one that is marked. -/
theorem root_of_toRoot (h : toRoot framing c = .ok enveloped root) :
    root.root = some (root.depth, root.position) := by
  obtain ⟨_, c₁, -, hrest⟩ := bind_eq_ok_iff.mp h
  obtain ⟨_, c₂, -, hmarked⟩ := bind_eq_ok_iff.mp hrest
  cases hmarked
  rfl

theorem walks_toRoot (framing : Framing) : Walks (toRoot framing) :=
  (walks_readPreamble framing).bind fun _ => (walks_unwrap framing).bind fun _ =>
    walks_markRoot.bind fun _ => .pure _

end Cursor

open Cursor

namespace Registry

variable {registry registry' : Registry} {t : Target} {bytes : Bytes} {enveloped : Bool}
  {root : Cursor}

/-- Read a stream up to its root slot. -/
def rootSlot (registry : Registry) (bytes : Bytes) : EStateM.Result DecodeError Cursor Bool :=
  toRoot registry.settings.framing (Cursor.start bytes registry.settings.limits)

theorem coherent_of_rootSlot (h : registry.rootSlot bytes = .ok enveloped root) : root.Coherent :=
  (walks_toRoot _).coherent (start_coherent bytes _) h

theorem readStream_of_rootSlot {α : Type} (reader : Decoding α)
    (h : registry.rootSlot bytes = .ok enveloped root) :
    registry.readStream reader bytes = (reader >>= leaveRoot enveloped) root :=
  rootValue_of_toRoot reader h

theorem readStream_map {α β : Type} (f : α → β) (reader : Decoding α) :
    registry.readStream (f <$> reader) bytes =
      match registry.readStream reader bytes with
      | .ok value left => .ok (f value) left
      | .error e left => .error e left := by
  unfold readStream
  rw [rootValue_map]
  simp only [Functor.map, EStateM.map]
  cases rootValue registry.settings.framing reader (start bytes registry.settings.limits) with
  | ok value left => rfl
  | error e left => rfl

/-- Under the same limits and the same framing, registries that do the same at the root slot do
the same with the stream. -/
theorem decodeRoot_congr (hlimits : registry'.settings.limits = registry.settings.limits)
    (hframing : registry'.settings.framing = registry.settings.framing)
    (h : ∀ enveloped root, registry.rootSlot bytes = .ok enveloped root →
      registry'.decodeTarget t root = registry.decodeTarget t root) :
    registry'.decodeRoot t bytes = registry.decodeRoot t bytes := by
  unfold decodeRoot readStream
  rw [hlimits, hframing, rootValue_congr h]

/-- What a stream is decoded to is what is decoded at its root slot. -/
theorem exists_rootSlot_of_decodeRoot {value : t.Carrier}
    (h : registry.decodeRoot t bytes = .ok value) :
    ∃ enveloped root left, registry.rootSlot bytes = .ok enveloped root ∧
      registry.decodeTarget t root = .ok value left := by
  obtain ⟨c, hread⟩ := decodeRoot_eq_ok h
  unfold readStream at hread
  rw [rootValue_eq_toRoot] at hread
  obtain ⟨enveloped, root, hroot, hrest⟩ := bind_eq_ok_iff.mp hread
  obtain ⟨found, left, hdecode, hleave⟩ := bind_eq_ok_iff.mp hrest
  rw [leaveRoot_eq] at hleave
  obtain ⟨_, -, rfl⟩ := map_eq_ok_iff.mp hleave
  exact ⟨enveloped, root, left, hroot, hdecode⟩

theorem exists_of_decodeRoot {value : t.Carrier} (h : registry.decodeRoot t bytes = .ok value) :
    ∃ root left, registry.decodeTarget t root = .ok value left := by
  obtain ⟨-, root, left, -, hdecode⟩ := exists_rootSlot_of_decodeRoot h
  exact ⟨root, left, hdecode⟩

/-- An error at the root value is the error of the stream. -/
theorem decodeRoot_of_error (registry : Registry) {e : DecodeError} {left : Cursor}
    (hroot : registry.rootSlot bytes = .ok enveloped root)
    (h : registry.decodeTarget t root = .error e left) :
    registry.decodeRoot t bytes = .error e := by
  unfold decodeRoot
  rw [readStream_of_rootSlot _ hroot]
  simp only [bind, EStateM.bind, h]

end Registry

end AmqpEnvelope
