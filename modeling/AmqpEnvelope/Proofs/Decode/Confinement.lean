import AmqpEnvelope.Proofs.Decode.Reachable
import AmqpEnvelope.Proofs.Lockstep.Decode

/-!
# Confinement

What stands in a container is read without a look outside it.  Two inputs may differ in
everything but the bytes from the cursor to the innermost declared end, also in their length;
then every operation on values answers the same over both and stops at the same place, with
the same frames open (`ValueOperation.confined`).

The two walks are in step on a ground whose horizon is that end.  Only the exits leave such a
ground, since they close a frame that was open before, but they look at no bytes at all.
-/

namespace AmqpEnvelope

namespace Cursor

variable {α β : Type} {bytes₁ bytes₂ : Bytes} {limits : Limits} {c₁ c₂ : Cursor}

/-- Two cursors stand at one place in one container, over inputs that are the same from there to
the innermost declared end. -/
structure SameContainer (bytes₁ bytes₂ : Bytes) (c₁ c₂ : Cursor) : Prop where
  position_eq : c₂.position = c₁.position
  frames_eq : c₂.frames = c₁.frames
  root_eq : c₂.root = c₁.root
  same_bytes : ∃ e, innermostEnd? c₁.frames = some e ∧
    (bytes₂.drop c₁.position).take (e - c₁.position) =
      (bytes₁.drop c₁.position).take (e - c₁.position)

/-- Two outcomes are the same value or the same error, at the same place and with the same
frames open. -/
inductive SameOutcome : EStateM.Result DecodeError Cursor α →
    EStateM.Result DecodeError Cursor α → Prop
  | ok (value : α) {c c' : Cursor} (hposition : c'.position = c.position)
      (hframes : c'.frames = c.frames) : SameOutcome (.ok value c) (.ok value c')
  | error (e : DecodeError) {c c' : Cursor} (hposition : c'.position = c.position)
      (hframes : c'.frames = c.frames) : SameOutcome (.error e c) (.error e c')

/-- The operations on values under a registry: looking at the next value, reading, skipping or
capturing it, entering and leaving it, and decoding what it holds. -/
inductive ValueOperation (registry : Registry) : {α : Type} → Decoding α → Prop
  | read (p : Primitive) : ValueOperation registry (Cursor.read p)
  | peekByte : ValueOperation registry (asks Cursor.peekByte?)
  | peekFormat : ValueOperation registry (asks Cursor.peekFormat?)
  | atNull : ValueOperation registry (asks Cursor.atNull)
  | peekDescriptor : ValueOperation registry peekDescriptor
  | beginDescribed : ValueOperation registry beginDescribed
  | expectSymbol (symbol : String) : ValueOperation registry (expectSymbol symbol)
  | finishDescribed : ValueOperation registry finishDescribed
  | enterComposite : ValueOperation registry enterComposite
  | exitComposite : ValueOperation registry exitComposite
  | enterList : ValueOperation registry enterList
  | exitList : ValueOperation registry exitList
  | enterMap : ValueOperation registry enterMap
  | exitMap : ValueOperation registry exitMap
  | skip : ValueOperation registry skip
  | capture : ValueOperation registry capture
  | decodeSlot : ValueOperation registry registry.decodeSlot
  | decodeKind (k : Kind) : ValueOperation registry (registry.decodeKind k)
  | decodeList (t : Target) : ValueOperation registry (listOf (registry.decodeTarget t))
  | decodeNullable (t : Target) : ValueOperation registry (nullable (registry.decodeTarget t))

/-! ## Leaving a container -/

theorem SameOutcome.bind {reader : Decoding α} {next : α → Decoding β}
    (hreader : SameOutcome (reader c₁) (reader c₂))
    (hnext : ∀ a c c', c'.position = c.position → c'.frames = c.frames →
      SameOutcome (next a c) (next a c')) :
    SameOutcome ((reader >>= next) c₁) ((reader >>= next) c₂) := by
  simp only [Bind.bind, EStateM.bind]
  generalize reader c₁ = first at hreader
  generalize reader c₂ = second at hreader
  cases hreader with
  | ok a hposition hframes => exact hnext a _ _ hposition hframes
  | error e hposition hframes => exact .error e hposition hframes

/-- Whether a frame may be closed depends on the frame and the place alone. -/
theorem sameOutcome_pop (kind : FrameKind) (hposition : c₂.position = c₁.position)
    (hframes : c₂.frames = c₁.frames) : SameOutcome (pop kind c₁) (pop kind c₂) := by
  unfold pop
  rw [hframes, hposition]
  cases hinner : c₁.frames with
  | nil => exact .error _ hposition hframes
  | cons frame outer =>
      dsimp only
      split
      · exact .error _ hposition hframes
      split
      · exact .error _ hposition hframes
      cases frame.endsAt with
      | none => exact .ok () rfl rfl
      | some e =>
          -- The place is compared with the declared end, and what stands there is not.
          dsimp only
          split
          · exact .error _ hposition hframes
          · exact .ok () rfl rfl

theorem sameOutcome_exitComposite (hposition : c₂.position = c₁.position)
    (hframes : c₂.frames = c₁.frames) : SameOutcome (exitComposite c₁) (exitComposite c₂) :=
  (sameOutcome_pop .list hposition hframes).bind fun _ _ _ => sameOutcome_pop .described

/-! ## Inside a container -/

/-- The ground of two walks in one container, up to its end. -/
def containerGround (c₁ c₂ : Cursor) {e : Nat} (hend : innermostEnd? c₁.frames = some e) :
    Ground where
  around := c₁.frames.map Frame.endsAt
  start := c₁.position
  horizon := e
  size := c₁.size
  size' := c₂.size
  limits := c₁.limits
  limits' := c₁.limits
  root := c₁.root
  begun := c₁.entered
  begun' := c₂.entered
  Fault := fun _ => True
  limits_le := Limits.le_refl _
  around_le := by
    rw [← innermostEnd?_eq_findSome?, hend]
    exact Nat.le_refl e
  around_eq := by
    rw [← innermostEnd?_eq_findSome?, hend]
    rfl
  fault_of := fun _ _ _ _ => trivial

theorem SameContainer.exists_ground (h : SameContainer bytes₁ bytes₂ c₁ c₂)
    (h₁ : Reachable bytes₁ limits c₁) (h₂ : Reachable bytes₂ limits c₂) :
    ∃ g : Ground, g.limits = g.limits' ∧ (∀ e, g.Fault e) ∧ Abreast g c₁ c₂ ∧
      g.Level c₁.depth c₁ := by
  obtain ⟨e, hend, hsame⟩ := h.same_bytes
  refine ⟨containerGround c₁ c₂ hend, rfl, fun _ => trivial, ?_, Ground.level_self rfl rfl rfl⟩
  exact
    { coherent := h₁.coherent
      coherent' := h₂.coherent
      position_eq := h.position_eq
      frames_eq := h.frames_eq
      root_eq := h.root_eq
      size_eq := rfl
      size_eq' := rfl
      limits_eq := rfl
      limits_eq' := h₂.limits_eq.trans h₁.limits_eq.symm
      same_bytes := by
        rw [h₁.unread_eq, h₂.unread_eq, h.position_eq]
        exact hsame
      begun := ⟨[], rfl, rfl⟩ }

/-- What agrees under the same limits is the same. -/
theorem sameOutcome_of_agree {g : Ground} {n : Nat} {r r' : EStateM.Result DecodeError Cursor α}
    (h : Agree g n r r') (hlimits : g.limits = g.limits') : SameOutcome r r' := by
  cases h with
  | ok value h _ => exact .ok value h.position_eq h.frames_eq
  | error e _ h => exact .error e h.position_eq h.frames_eq
  | cut _ _ hdiffer => exact absurd hlimits hdiffer

/-- **What is in a container cannot see outside it.**  Over two inputs that are the same from the
cursor to the innermost declared end, every operation on values comes to the same value or
the same error, at the same place and with the same frames open. -/
theorem ValueOperation.confined {registry : Registry} (hregistry : registry.Declared)
    {operation : Decoding α} (hoperation : ValueOperation registry operation)
    (h₁ : Reachable bytes₁ limits c₁) (h₂ : Reachable bytes₂ limits c₂)
    (hsame : SameContainer bytes₁ bytes₂ c₁ c₂) :
    SameOutcome (operation c₁) (operation c₂) := by
  obtain ⟨g, hlimits, hfault, h, hlevel⟩ := hsame.exists_ground h₁ h₂
  have halike : Alike g 0 registry registry := hregistry.alike registry rfl rfl hfault
  have hdecode : ∀ t n, InStep g n n (registry.decodeTarget t) (registry.decodeTarget t) :=
    fun t n => registry.inStep_decodeTarget halike (Nat.zero_le n) t
  have hstep : ∀ {n} {op : Decoding α}, InStep g c₁.depth n op op → SameOutcome (op c₁) (op c₂) :=
    fun hop => sameOutcome_of_agree (hop h hlevel) hlimits
  cases hoperation with
  | read p => exact hstep (inStep_read p)
  | peekByte => exact hstep (inStep_asks fun h hlevel => h.peekByte?_eq hlevel)
  | peekFormat => exact hstep (inStep_asks fun h hlevel => h.peekFormat?_eq hlevel)
  | atNull => exact hstep (inStep_asks fun h hlevel => h.atNull_eq hlevel)
  | peekDescriptor => exact hstep inStep_peekDescriptor
  | beginDescribed => exact hstep inStep_beginDescribed
  | expectSymbol symbol => exact hstep (inStep_expectSymbol symbol)
  | finishDescribed => exact sameOutcome_pop .described hsame.position_eq hsame.frames_eq
  | enterComposite => exact hstep inStep_enterComposite
  | exitComposite => exact sameOutcome_exitComposite hsame.position_eq hsame.frames_eq
  | enterList => exact hstep inStep_enterList
  | exitList => exact sameOutcome_pop .list hsame.position_eq hsame.frames_eq
  | enterMap => exact hstep inStep_enterMap
  | exitMap => exact sameOutcome_pop .map hsame.position_eq hsame.frames_eq
  | skip => exact hstep inStep_skip
  | capture => exact hstep inStep_capture
  | decodeSlot => exact hstep (hdecode .slot _)
  | decodeKind k => exact hstep (hdecode (.kind k) _)
  | decodeList t => exact hstep (inStep_listOf (hdecode t _))
  | decodeNullable t => exact hstep (inStep_nullable (hdecode t _))

/-- A list that ends where the four bytes of its string should begin. -/
private def cutList : Bytes := [0xc0, 0x03, 0x01, 0xa1, 0x04]

/-- A cursor in that list, with some bytes behind the list. -/
private def inCutList (behind : Bytes) : Cursor :=
  after ((Registry.empty Settings.standard).runStep .enterList)
    (Cursor.start (cutList ++ behind) ⟨2, 10⟩)

/-- The string is cut off at the end of the list, also where four bytes stand behind that. -/
theorem cut_string_confined :
    Cursor.read .string (inCutList []) =
        .error (.mismatch (.truncated "string" 4 0) 5)
          ⟨[], 5, 5, [⟨.list, 0, some 5, 1, 1⟩], ⟨2, 10⟩, none, []⟩ ∧
      SameOutcome (Cursor.read .string (inCutList []))
        (Cursor.read .string (inCutList [0x61, 0x62, 0x63, 0x64])) :=
  ⟨by rfl, (ValueOperation.read .string).confined (.empty Settings.standard)
    (.step _ .enterList .start) (.step _ .enterList .start)
    ⟨by decide, by decide, by decide, 5, by decide, by decide⟩⟩

end Cursor

end AmqpEnvelope
