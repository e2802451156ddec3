import AmqpEnvelope.Proofs.Decode.Walk
import AmqpEnvelope.Proofs.Lockstep.Reader
import AmqpEnvelope.Proofs.Registry.Declared

/-!
# Decoding in step

Two registries are alike on a ground if they have the same entries, of described types or
nested streams, and their settings do the same with every unregistered composite on it.
Whatever is decoded under the one is in step with the same under the other.

A composite is dispatched on the level on which it stands, and the slots in it are at least
one level deeper.  So it is enough that the registries are alike from some level on.  And the
guard of the recursion never applies, since each level has taken a byte.
-/

namespace AmqpEnvelope

open Cursor

/-! ## Seen from a place on the way -/

namespace Ground

variable {g : Ground} {m n : Nat} {c c' : Cursor}

/-- The same ground, with the walks begun at a place that was reached on it. -/
def refocus (g : Ground) (h : Abreast g c c') (hlevel : g.Level n c) : Ground :=
  { g with
    around := c.frames.map Frame.endsAt
    start := c.position
    around_le := by
      rw [← innermostEnd?_eq_findSome?, ← h.size_eq]
      exact h.bound_le hlevel
    around_eq := by
      have hbound := h.bound_eq hlevel
      rwa [bound, bound, h.frames_eq, h.size_eq, h.size_eq', innermostEnd?_eq_findSome?] at hbound
    fault_of := fun e hunknown hstart hend =>
      g.fault_of e hunknown (Nat.le_trans (h.covers_position hlevel).1 hstart) hend }

variable {h : Abreast g c c'} {hlevel : g.Level n c}

theorem around_length_refocus : (g.refocus h hlevel).around.length = n :=
  (List.length_map _).trans hlevel.depth_eq

/-- A level that is reached from a place on the way is one that is reached at all. -/
theorem level_of_refocus {c₁ : Cursor} (h₁ : (g.refocus h hlevel).Level m c₁) : g.Level m c₁ where
  depth_eq := h₁.depth_eq
  around := hlevel.around.trans h₁.around
  behind := by
    have hlength := hlevel.around_length_le
    have hbehind := hlevel.behind
    have hbehind₁ : c.position + (m - (g.refocus h hlevel).around.length) ≤ c₁.position := h₁.behind
    rw [around_length_refocus] at hbehind₁
    omega
  root_eq := h₁.root_eq

theorem level_refocus : (g.refocus h hlevel).Level n c := by
  obtain rfl := hlevel.depth_eq
  exact level_self rfl rfl hlevel.root_eq.symm

theorem abreast_refocus {c₁ c₁' : Cursor} (h₁ : Abreast g c₁ c₁') :
    Abreast (g.refocus h hlevel) c₁ c₁' :=
  { h₁ with }

/-- What agrees as seen from a place on the way agrees. -/
theorem agree_of_refocus {α : Type} (h : Abreast g c c') (hlevel : g.Level n c)
    {r r' : EStateM.Result DecodeError Cursor α}
    (hagree : Agree (g.refocus h hlevel) m r r') : Agree g m r r' := by
  cases hagree with
  | ok value h₁ hlevel₁ => exact .ok value { h₁ with } (level_of_refocus hlevel₁)
  | error e hfault h₁ => exact .error e hfault { h₁ with }
  | cut e hlimit hlimits => exact .cut e hlimit hlimits

/-- On a deeper level less is left to happen. -/
theorem potential_lt {c₁ c₁' : Cursor} (h₁ : Abreast (g.refocus h hlevel) c₁ c₁')
    (hlevel₁ : (g.refocus h hlevel).Level m c₁) (hm : n < m) :
    c₁.potential < c.potential ∧ c₁'.potential < c'.potential := by
  have hdepth : c.frames.length = n := hlevel.depth_eq
  have hdepth₁ : c₁.frames.length = m := hlevel₁.depth_eq
  have hbehind : c.position + (m - (g.refocus h hlevel).around.length) ≤ c₁.position :=
    hlevel₁.behind
  rw [around_length_refocus] at hbehind
  have hlength := h₁.coherent.position_add_length
  have hlength' := h₁.coherent'.position_add_length
  have hsize : c₁.size = c.size := h₁.size_eq.trans h.size_eq.symm
  have hsize' : c₁'.size = c'.size := h₁.size_eq'.trans h.size_eq'.symm
  have hposition := h.position_eq
  have hposition₁ := h₁.position_eq
  unfold potential
  rw [h.frames_eq, h₁.frames_eq]
  omega

end Ground

/-! ## Registries that are alike -/

/-- From a level on, two registries decode the composites on a ground alike. -/
structure Alike (g : Ground) (low : Nat) (registry registry' : Registry) : Prop where
  entries_eq : registry'.entries = registry.entries
  typed : ∀ d constructor, registry.resolve d = some constructor → constructor.IsTyped
  /-- The settings do the same with an unregistered composite. -/
  action_eq : ∀ {n : Nat} {c : Cursor}, low ≤ n → g.Level n c →
    registry'.settings.unknownTypes.actionFor c.atRootSlot =
      registry.settings.unknownTypes.actionFor c.atRootSlot
  /-- If that is to refuse it, the refusal may arise. -/
  fault_of_reject : ∀ {n : Nat} {c c' : Cursor} (d : Descriptor), low ≤ n → Abreast g c c' →
    g.Level n c → registry.settings.unknownTypes.actionFor c.atRootSlot = .reject →
      g.Fault (.unknownDescriptor d c.position)

/-- Registries with the same entries that treat unknown composites the same are alike where every
error may arise. -/
theorem Registry.Declared.alike {registry : Registry} (hregistry : registry.Declared)
    (registry' : Registry) (hentries : registry'.entries = registry.entries)
    (hpolicy : registry'.settings.unknownTypes = registry.settings.unknownTypes) {g : Ground}
    (hfault : ∀ e, g.Fault e) : Alike g 0 registry registry' where
  entries_eq := hentries
  typed := hregistry.isTyped_of_resolve
  action_eq := fun _ _ => by rw [hpolicy]
  fault_of_reject := fun _ _ _ _ _ => hfault _

namespace Alike

variable {g : Ground} {low n : Nat} {registry registry' : Registry}

theorem resolve_eq (h : Alike g low registry registry') (d : Descriptor) :
    registry'.resolve d = registry.resolve d := by
  rw [Registry.resolve, Registry.resolve, h.entries_eq]

theorem accepts_eq (h : Alike g low registry registry') (k : Kind) (d : Descriptor) :
    registry'.accepts k d = registry.accepts k d := by
  rw [Registry.accepts, Registry.accepts, h.resolve_eq]

theorem refocus {c c' : Cursor} {hc : Abreast g c c'} {hlevel : g.Level n c}
    (h : Alike g low registry registry') : Alike (g.refocus hc hlevel) low registry registry' where
  entries_eq := h.entries_eq
  typed := h.typed
  action_eq := fun hlow h₁ => h.action_eq hlow (Ground.level_of_refocus h₁)
  fault_of_reject := fun d hlow h₁ hlevel₁ =>
    h.fault_of_reject d hlow { h₁ with } (Ground.level_of_refocus hlevel₁)

end Alike

namespace Decode

variable {α β : Type} {g : Ground} {n low : Nat} {registry registry' : Registry}
  {resolver resolver' : Resolver}

/-- From a level on, two resolvers are in step. -/
def ResolversInStep (g : Ground) (low : Nat) (resolver resolver' : Resolver) : Prop :=
  ∀ n, low ≤ n → ∀ d, InStep g n n (resolver d) (resolver' d)

theorem ResolversInStep.mono {high : Nat} (h : ResolversInStep g low resolver resolver')
    (hle : low ≤ high) : ResolversInStep g high resolver resolver' :=
  fun n hn => h n (Nat.le_trans hle hn)

/-! ## Slots and composites -/

theorem inStep_slot (hresolver : ∀ d, InStep g n n (resolver d) (resolver' d)) :
    InStep g n n (slot resolver) (slot resolver') := by
  intro c c' h hlevel
  refine .asks ?_
  rw [h.atNull_eq hlevel]
  split
  · exact (inStep_read .null).bind (fun _ => .pure _) h hlevel
  · refine (inStep_peekDescriptor h hlevel).bind fun found c₁ c₁' _ h₁ hlevel₁ => ?_
    cases found with
    | some d => exact hresolver d h₁ hlevel₁
    | none =>
        refine .get ?_
        rw [h₁.peekByte?_eq hlevel₁, h₁.position_eq]
        exact InStep.mismatch (h₁.covers_position hlevel₁) h₁ hlevel₁

theorem inStep_begun {k : Kind} {body body' : Decoding α} (hbody : InStep g n n body body') :
    InStep g n n (begun k body) (begun k body') :=
  (inStep_enterType _).bind fun _ => hbody

theorem inStep_composite (halike : Alike g low registry registry') {k : Kind}
    {body body' : Decoding α} (hbody : InStep g (n + 2) (n + 2) body body') :
    InStep g n n (composite registry k body) (composite registry' k body') := by
  intro c c' h hlevel
  refine .asks ?_
  rw [h.position_eq]
  have hoffset := h.covers_position hlevel
  have hn := hlevel.around_length_le
  refine (inStep_enterComposite h hlevel).bind fun d c₁ c₁' _ h₁ hlevel₁ => ?_
  rw [halike.accepts_eq]
  split
  · exact (inStep_begun hbody).bind
      (fun _ => (inStep_exitComposite hn).bind fun _ => .pure _) h₁ hlevel₁
  · exact .error _ (g.fault_of _ rfl hoffset.1 hoffset.2) h₁

/-! ## Every type -/

theorem inStep_publicKeyBody : InStep g n n publicKeyBody publicKeyBody := by
  intro c c' h hlevel
  exact (inStep_expectSymbol _).bind (fun _ => (inStep_read .binary).bind fun _ =>
    (inStep_pop .described hlevel.around_length_le).bind fun _ => .pure _) h hlevel

theorem inStep_byteSequenceFields : InStep g n n byteSequenceFields byteSequenceFields :=
  (inStep_read .binary).bind fun _ => .pure _

theorem inStep_serializedBytesFields : InStep g n n serializedBytesFields serializedBytesFields :=
  (inStep_read .binary).bind fun _ => .pure _

theorem inStep_privacySaltFields : InStep g n n privacySaltFields privacySaltFields := by
  intro c c' h hlevel
  refine .asks ?_
  rw [h.position_eq]
  refine (inStep_read .binary h hlevel).bind fun bytes c₁ c₁' _ h₁ hlevel₁ => ?_
  split
  · exact .ok _ h₁ hlevel₁
  · exact InStep.mismatch (h.covers_position hlevel) h₁ hlevel₁

theorem inStep_signatureMetadataFields :
    InStep g n n signatureMetadataFields signatureMetadataFields :=
  (inStep_read .int).bind fun _ => (inStep_read .int).bind fun _ => .pure _

theorem inStep_transactionSignatureFields (halike : Alike g low registry registry')
    (hresolver : ResolversInStep g n resolver resolver') :
    InStep g n n (transactionSignatureFields registry resolver)
      (transactionSignatureFields registry' resolver') :=
  (inStep_read .binary).bind fun _ => (inStep_begun inStep_publicKeyBody).bind fun _ =>
    (inStep_nullable (inStep_slot (hresolver n (Nat.le_refl n)))).bind fun _ =>
      (inStep_composite halike inStep_signatureMetadataFields).bind fun _ => .pure _

theorem inStep_componentGroupFields (halike : Alike g low registry registry') :
    InStep g n n (componentGroupFields registry) (componentGroupFields registry') :=
  (inStep_listOf (inStep_composite halike inStep_byteSequenceFields)).bind fun _ =>
    (inStep_read .int).bind fun _ => .pure _

theorem inStep_wireTransactionFields (halike : Alike g low registry registry') :
    InStep g n n (wireTransactionFields registry) (wireTransactionFields registry') := by
  intro c c' h hlevel
  refine .asks ?_
  rw [h.position_eq]
  have hoffset := h.covers_position hlevel
  have hgroups : InStep g n n
      (listOf (composite registry .componentGroup (componentGroupFields registry)))
      (listOf (composite registry' .componentGroup (componentGroupFields registry'))) :=
    inStep_listOf (inStep_composite halike (inStep_componentGroupFields halike))
  refine hgroups.bind (fun groups =>
    (inStep_composite halike inStep_privacySaltFields).bind fun salt => ?_) h hlevel
  cases WireTransaction.ofGroups groups salt with
  | ok transaction => exact .pure _
  | error fault => exact .throw (g.fault_of _ rfl hoffset.1 hoffset.2)

theorem inStep_signedTransactionFields (halike : Alike g low registry registry')
    (hresolver : ResolversInStep g n resolver resolver') :
    InStep g n n (signedTransactionFields registry resolver)
      (signedTransactionFields registry' resolver') :=
  (inStep_listOf (inStep_composite halike (inStep_transactionSignatureFields halike
    (hresolver.mono (Nat.le_add_right n 3))))).bind fun _ =>
      (inStep_composite halike inStep_serializedBytesFields).bind fun _ => .pure _

theorem inStep_recordFields (hresolver : ResolversInStep g n resolver resolver')
    (types : List FieldType) :
    InStep g n n (recordFields resolver types) (recordFields resolver' types) := by
  induction types with
  | nil => exact .pure _
  | cons type rest ih =>
      have hfield : InStep g n n (field resolver type.shape) (field resolver' type.shape) := by
        cases type.shape with
        | scalar p => exact (inStep_readScalar p).bind fun _ => .pure _
        | slot => exact (inStep_slot (hresolver n (Nat.le_refl n))).bind fun _ => .pure _
      exact hfield.bind fun _ => ih.bind fun _ => .pure _

/-- The self-describing types have no slots, so the resolvers matter for the others only. -/
theorem inStep_fields (halike : Alike g low registry registry') (k : Kind)
    (hresolver : k.entry = .dispatched → ResolversInStep g n resolver resolver') :
    InStep g n n (fields registry resolver k) (fields registry' resolver' k) := by
  cases k with
  | instant =>
      exact InStep.map ((inStep_read .long).bind fun _ => (inStep_read .int).bind fun _ => .pure _)
  | localDate =>
      exact InStep.map ((inStep_read .uint).bind fun _ => (inStep_read .ubyte).bind fun _ =>
        (inStep_read .ubyte).bind fun _ => .pure _)
  | duration =>
      exact InStep.map ((inStep_read .ulong).bind fun _ => (inStep_read .uint).bind fun _ =>
        .pure _)
  | currency => exact InStep.map ((inStep_read .string).bind fun _ => .pure _)
  | className => exact InStep.map ((inStep_read .string).bind fun _ => .pure _)
  | throwable =>
      intro c c' h hlevel
      refine .asks ?_
      rw [h.position_eq]
      exact .error _ (h.fault hlevel rfl rfl) h
  | publicKey => exact inStep_publicKeyBody.map
  | byteSequence => exact inStep_byteSequenceFields.map
  | serializedBytes => exact inStep_serializedBytesFields.map
  | privacySalt => exact inStep_privacySaltFields.map
  | componentGroup => exact (inStep_componentGroupFields halike).map
  | wireTransaction => exact (inStep_wireTransactionFields halike).map
  | signatureMetadata => exact inStep_signatureMetadataFields.map
  | transactionSignature =>
      exact (inStep_transactionSignatureFields halike (hresolver rfl)).map
  | signedTransaction => exact (inStep_signedTransactionFields halike (hresolver rfl)).map
  | record type => exact (inStep_recordFields (hresolver rfl) type.fields).map

theorem inStep_kind (halike : Alike g low registry registry')
    (hresolver : ResolversInStep g (n + 1) resolver resolver') (k : Kind) :
    InStep g n n (kind registry resolver k) (kind registry' resolver' k) := by
  unfold kind
  cases hentry : k.entry with
  | selfDescribing => exact inStep_begun (inStep_fields halike k (by simp [hentry]))
  | dispatched =>
      exact inStep_composite halike
        (inStep_fields halike k fun _ => hresolver.mono (Nat.le_succ (n + 1)))

theorem inStep_target (halike : Alike g low registry registry')
    (hresolver : ResolversInStep g n resolver resolver') (t : Target) :
    InStep g n n (target registry resolver t) (target registry' resolver' t) := by
  cases t with
  | slot => exact inStep_slot (hresolver n (Nat.le_refl n))
  | kind k => exact inStep_kind halike (hresolver.mono (Nat.le_succ n)) k

/-! ## Dispatch -/

/-- The fields of a composite, with its end behind them. -/
def entered (fields : Decoding α) : Decoding α := do
  let _ ← enterComposite
  let value ← fields
  exitComposite
  return value

theorem inStep_entered {fields fields' : Decoding α}
    (hfields : InStep g (n + 2) (n + 2) fields fields') :
    InStep g n n (entered fields) (entered fields') := by
  intro c c' h hlevel
  exact inStep_enterComposite.bind (fun _ => hfields.bind fun _ =>
    (inStep_exitComposite hlevel.around_length_le).bind fun _ => .pure _) h hlevel

theorem inStep_invoke (halike : Alike g low registry registry') {constructor : Constructor}
    (htyped : constructor.IsTyped) (hresolver : ResolversInStep g (n + 1) resolver resolver') :
    InStep g n n (invoke registry resolver constructor)
      (invoke registry' resolver' constructor) := by
  rcases htyped with ⟨k, rfl⟩ | rfl
  · unfold invoke
    simp only [Constructor.entry]
    cases hentry : k.entry with
    | dispatched =>
        exact inStep_entered (inStep_begun (inStep_fields halike k fun _ =>
          hresolver.mono (Nat.le_succ (n + 1)))).map
    | selfDescribing => exact (inStep_begun (inStep_fields halike k (by simp [hentry]))).map
  · exact inStep_entered (inStep_begun inStep_serializedBytesFields).map

theorem inStep_captureComposite (d : Descriptor) :
    InStep g n n (captureComposite d) (captureComposite d) := by
  intro c c' h hlevel
  refine .asks ?_
  rw [h.position_eq]
  have hbody : InStep g n (n + 1) (beginDescribed >>= fun _ => asks Cursor.position)
      (beginDescribed >>= fun _ => asks Cursor.position) :=
    inStep_beginDescribed.bind fun _ => inStep_asks fun h₁ _ => h₁.position_eq
  exact (inStep_probe hbody).bind (fun _ => inStep_capture.bind fun _ => .pure _) h hlevel

theorem inStep_dispatchWith (halike : Alike g low registry registry') {d : Descriptor}
    (hn : registry.resolve d = none → low ≤ n)
    (hresolver : ResolversInStep g (n + 1) resolver resolver') :
    InStep g n n (dispatchWith registry resolver d) (dispatchWith registry' resolver' d) := by
  unfold dispatchWith
  rw [halike.resolve_eq]
  cases hresolve : registry.resolve d with
  | some constructor => exact inStep_invoke halike (halike.typed d constructor hresolve) hresolver
  | none =>
      -- Without a constructor, only the settings and the slot decide.
      intro c c' h hlevel
      refine .get ?_
      have hn := hn hresolve
      rw [h.atRootSlot_eq, h.position_eq, halike.action_eq hn hlevel]
      cases haction : registry.settings.unknownTypes.actionFor c.atRootSlot with
      | reject => exact .error _ (halike.fault_of_reject d hn h hlevel haction) h
      | capture => exact inStep_captureComposite d h hlevel

/-- A composite is decoded in step on a level if the slots in it are on the deeper ones.
These are seen from the composite itself, from where less is left to happen in each. -/
theorem agree_dispatchWith (halike : Alike g low registry registry') {d : Descriptor}
    (hn : registry.resolve d = none → low ≤ n) {c c' : Cursor} (h : Abreast g c c')
    (hlevel : g.Level n c)
    (hresolver : ∀ m c₁ c₁' d, n < m → Abreast (g.refocus h hlevel) c₁ c₁' →
      (g.refocus h hlevel).Level m c₁ → c₁.potential < c.potential → c₁'.potential < c'.potential →
        Agree (g.refocus h hlevel) m (resolver d c₁) (resolver' d c₁')) :
    Agree g n (dispatchWith registry resolver d c) (dispatchWith registry' resolver' d c') := by
  -- Seen from here, a deeper level is one that has taken bytes of this composite.
  refine Ground.agree_of_refocus h hlevel (inStep_dispatchWith halike.refocus hn
    (fun m hm inner c₁ c₁' h₁ hlevel₁ => ?_) (Ground.abreast_refocus h) Ground.level_refocus)
  obtain ⟨hless, hless'⟩ := Ground.potential_lt h₁ hlevel₁ hm
  exact hresolver m c₁ c₁' inner hm h₁ hlevel₁ hless hless'

/-- Dispatch is in step, by induction on what is left to happen at the cursor.  What the settings
do with unregistered composites matters for this one only if it is one. -/
theorem agree_dispatch (halike : Alike g low registry registry') {d : Descriptor}
    (hn : registry.resolve d = none → low ≤ n) (hlow : low ≤ n + 1) {c c' : Cursor}
    (h : Abreast g c c') (hlevel : g.Level n c) :
    Agree g n (dispatch registry d c) (dispatch registry' d c') := by
  induction hpotential : c.potential using Nat.strongRecOn generalizing g n d c c' with
  | ind p ih =>
      rw [dispatch, dispatch]
      refine agree_dispatchWith halike hn h hlevel
        fun m c₁ c₁' inner hm h₁ hlevel₁ hless hless' => ?_
      -- Both guards hold, so the slot is dispatched on both sides, on a deeper level.
      rw [if_pos hless, if_pos hless']
      have hdeeper : low ≤ m := Nat.le_trans hlow hm
      exact ih _ (hpotential ▸ hless) halike.refocus (fun _ => hdeeper) (Nat.le_succ_of_le hdeeper)
        h₁ hlevel₁ rfl

theorem inStep_dispatch (halike : Alike g low registry registry') :
    ResolversInStep g low (dispatch registry) (dispatch registry') :=
  fun _ hn _ _ _ h hlevel =>
    agree_dispatch halike (fun _ => hn) (Nat.le_succ_of_le hn) h hlevel

/-- The guard of the recursion never applies. -/
theorem dispatch_eq (hregistry : registry.Declared) {c : Cursor} (hc : c.Coherent)
    (d : Descriptor) : dispatch registry d c = dispatchWith registry (dispatch registry) d c := by
  have halike : Alike (c.ground hc (Limits.le_refl _)) 0 registry registry :=
    hregistry.alike registry rfl rfl fun _ => trivial
  rw [dispatch]
  refine (agree_dispatchWith halike (fun _ => Nat.zero_le _) abreast_ground level_ground
    fun m c₁ c₁' inner _ h₁ hlevel₁ _ hless => ?_).eq_of_ground
  rw [if_pos hless]
  exact inStep_dispatch halike.refocus m (Nat.zero_le m) inner h₁ hlevel₁

end Decode

/-! ## Targets -/

namespace Registry

open Decode

variable {g : Ground} {low n : Nat} {registry registry' : Registry}

theorem inStep_decodeTarget (halike : Alike g low registry registry') (hn : low ≤ n) (t : Target) :
    InStep g n n (registry.decodeTarget t) (registry'.decodeTarget t) :=
  inStep_target halike (fun m hm => inStep_dispatch halike m (Nat.le_trans hn hm)) t

/-- A value of a described type does not stand in a slot itself. -/
theorem inStep_decodeKind (halike : Alike g low registry registry') (hn : low ≤ n + 1) (k : Kind) :
    InStep g n n (registry.decodeKind k) (registry'.decodeKind k) :=
  inStep_kind halike (fun m hm => inStep_dispatch halike m (Nat.le_trans hn hm)) k

end Registry

end AmqpEnvelope
