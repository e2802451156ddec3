import Mathlib.Logic.Function.Iterate
import AmqpEnvelope.Proofs.Grammar.Slot
import AmqpEnvelope.Proofs.Lockstep.Outline

/-!
# Nested calls

Three readers call themselves for what is inside a value: skipping, outlining and the decoding
of slots.  Each is written here as one step that takes the inner call as a parameter, so that
`step^[n] beyond` makes at most `n` calls within each other and leaves the next one to
`beyond`.

If `n` is the number of frames that may still be opened and one more, it does not matter what
stands beyond: the outcome is that of the whole reader.  For an outline and a slot this is
lockstep from the deepest level upwards.  An inner call is made with more frames open than
the outer one, and where more would have to be open than may be, there is no cursor at all to
make it from (`inStep_iterate`).  Skipping opens no frames; it counts its depth by itself.
-/

namespace AmqpEnvelope

namespace Cursor

variable {c : Cursor}

/-! ## Skipping -/

/-- Skip a value whose element has been claimed, with a given way to skip the two parts of a
described one. -/
def skipStep (inner : (depth : Nat) → Decoding Unit) (depth : Nat) : Decoding Unit := do
  let (format, offset) ← formatHere "value"
  match format.category with
  | .described => do
      let limits ← asks Cursor.limits
      if limits.maxDepth ≤ depth then
        throw (.limitExceeded .nestingDepth (depth + 1) limits.maxDepth offset)
      else
        inner (depth + 1)
        inner (depth + 1)
  | category => do
      let _ ← payload category format.name

/-- The parts of a described value are skipped in the same way as the value. -/
theorem skipBody_eq_skipStep {depth : Nat} (hdepth : depth ≤ c.limits.maxDepth) :
    skipBody (c.limits.maxDepth - depth) depth c =
      skipStep (fun depth => skipBody (c.limits.maxDepth - depth) depth) depth c := by
  rw [skipBody, skipStep]
  refine bind_congr_of_ok rfl fun found c₁ hformat => ?_
  obtain ⟨format, offset⟩ := found
  obtain ⟨-, -, -, rfl⟩ := formatHere_eq_ok_iff.mp hformat
  have hlimits : asks Cursor.limits (c.advance 1) = .ok c.limits (c.advance 1) := rfl
  cases hcategory : format.category with
  | described =>
      simp only [hcategory]
      rw [bind_of_ok hlimits]
      rcases Nat.lt_or_eq_of_le hdepth with hspare | rfl
      · obtain ⟨room, hroom⟩ : ∃ room, c.limits.maxDepth - depth = room + 1 :=
          ⟨c.limits.maxDepth - (depth + 1), by omega⟩
        have hinner : c.limits.maxDepth - (depth + 1) = room := by omega
        rw [if_neg (Nat.not_le.mpr hspare), hroom, hinner]
      · rw [if_pos (Nat.le_refl _), Nat.sub_self]
        rfl
  | _ => simp only [hcategory]

/-- The inner calls are made one level deeper, with the bound not yet reached and the limits the
same. -/
theorem skipStep_congr {inner inner' : Nat → Decoding Unit} {depth : Nat}
    (hwalks : Walks (inner' (depth + 1)))
    (h : ∀ c₁ : Cursor, c₁.limits = c.limits → depth < c.limits.maxDepth →
      inner (depth + 1) c₁ = inner' (depth + 1) c₁) :
    skipStep inner depth c = skipStep inner' depth c := by
  rw [skipStep, skipStep]
  refine bind_congr_of_ok rfl fun found c₁ hformat => ?_
  obtain ⟨format, offset⟩ := found
  obtain ⟨-, -, -, rfl⟩ := formatHere_eq_ok_iff.mp hformat
  cases hcategory : format.category with
  | described =>
      simp only [hcategory]
      refine bind_congr_of_ok rfl fun limits c₁ hasks => ?_
      obtain ⟨rfl, rfl⟩ := asks_eq_ok_iff.mp hasks
      split
      · rfl
      next hspare =>
        have hspare := Nat.not_le.mp hspare
        refine bind_congr_of_ok (h _ rfl hspare) fun _ c₂ hfirst => ?_
        have hwalk := hwalks (c.advance 1)
        rw [after_of_ok hfirst] at hwalk
        exact h c₂ hwalk.limits_eq hspare
  | _ => simp only [hcategory]

/-- The depth grows with each inner call, and from the bound on none is made. -/
theorem iterate_skipStep (beyond : Nat → Decoding Unit) {n depth : Nat}
    (hdepth : depth ≤ c.limits.maxDepth) (hn : c.limits.maxDepth - depth + 1 ≤ n) :
    (skipStep^[n] beyond) depth c = skipBody (c.limits.maxDepth - depth) depth c := by
  induction n generalizing c depth with
  | zero => exact absurd hn (Nat.not_succ_le_zero _)
  | succ n ih =>
      rw [Function.iterate_succ_apply', skipBody_eq_skipStep hdepth]
      refine skipStep_congr (walks_skipBody _ _) fun c₁ hlimits hspare => ?_
      rw [← hlimits] at hn hspare ⊢
      exact ih hspare (by omega)

/-- Skipping makes no more calls within each other than frames may be open and one more. -/
theorem skip_eq_iterate (hc : c.Coherent) (beyond : Nat → Decoding Unit) {n : Nat}
    (hn : c.limits.maxDepth - c.depth + 1 ≤ n) :
    (do claim "value"; let c ← get; (skipStep^[n] beyond) c.depth : Decoding Unit) c = skip c := by
  refine bind_congr_of_ok rfl fun _ c₁ hclaim => ?_
  have hwalk := walks_claim "value" c
  rw [after_of_ok hclaim] at hwalk
  have hdepth : c₁.depth = c.depth := depth_of_claim hclaim
  have hlimits : c₁.limits = c.limits := hwalk.limits_eq
  have hc₁ := hwalk.coherent hc
  exact iterate_skipStep beyond hc₁.depth_le (by rw [hlimits, hdepth]; exact hn)

end Cursor

open Cursor

/-! ## Calls on deeper levels -/

section

variable {α : Type} {g : Ground}

/-- No cursor stands deeper than the bound on frames allows. -/
theorem inStep_of_maxDepth_lt {m : Nat} (hm : g.limits.maxDepth < m)
    (reader reader' : Decoding α) : InStep g m m reader reader' := by
  intro c c' h hlevel
  have hdepth := h.coherent.depth_le
  rw [h.limits_eq] at hdepth
  have hlevel' := hlevel.depth_eq
  omega

/-- A reader that is one step with itself inside, and makes its inner calls on deeper levels, is
that step unfolded, provided that this is often enough for the levels that there are. -/
theorem iterate_eq_of_fixed {c : Cursor} (hc : c.Coherent)
    {step : Decoding α → Decoding α} {whole : Decoding α}
    (hstep : ∀ {m : Nat} {inner inner' : Decoding α},
      (∀ k, m < k → InStep (c.ground hc (Limits.le_refl _)) k k inner inner') →
        InStep (c.ground hc (Limits.le_refl _)) m m (step inner) (step inner'))
    (hwhole : ∀ {c₁ : Cursor}, c₁.Coherent → whole c₁ = step whole c₁) (beyond : Decoding α)
    {n : Nat} (hn : c.limits.maxDepth - c.depth + 1 ≤ n) : (step^[n] beyond) c = whole c := by
  -- By induction on `n`, for all levels at once: what is left of `n` at a level is enough for it.
  have hunfolded : ∀ m, c.limits.maxDepth < n + m →
      InStep (c.ground hc (Limits.le_refl _)) m m (step^[n] beyond) whole := by
    clear hn
    induction n with
    | zero =>
        intro m hm
        exact inStep_of_maxDepth_lt (by rwa [Nat.zero_add] at hm) _ _
    | succ n ih =>
        intro m hm c₁ c₁' h hlevel
        rw [Function.iterate_succ_apply', hwhole h.coherent']
        exact hstep (fun k hk => ih k (by omega)) h hlevel
  exact (hunfolded c.depth (by omega) abreast_ground level_ground).eq_of_ground.symm

end

/-! ## Outlines -/

namespace Outline

/-- The parts of a value are outlined in the same way as the value. -/
theorem value_eq_nodeWith {c : Cursor} (hc : c.Coherent) : value c = nodeWith value c := by
  have hinStep : InStep (c.ground hc (Limits.le_refl _)) c.depth c.depth
      (node (c.limits.maxDepth - c.depth)) (nodeWith value) := by
    cases hroom : c.limits.maxDepth - c.depth with
    | zero =>
        -- The parts would stand on a level that there is not.
        refine inStep_nodeWith (inStep_of_maxDepth_lt ?_ _ _)
        exact Nat.lt_succ_of_le (Nat.sub_eq_zero_iff_le.mp hroom)
    | succ room =>
        refine inStep_nodeWith fun c₁ c₁' h hlevel => ?_
        have hleft : c₁'.limits.maxDepth - c₁'.depth = room := by
          have hlimits : c₁'.limits = c.limits := h.limits_eq'
          have hdepth := hlevel.depth_eq
          rw [hlimits, h.depth_eq, hdepth]
          omega
        have hvalue : value c₁' = node room c₁' := by
          rw [← hleft]
          rfl
        rw [hvalue]
        exact inStep_node room h hlevel
  exact (hinStep abreast_ground level_ground).eq_of_ground.symm

/-- Outlining makes no more calls within each other than frames may be open and one more. -/
theorem value_eq_iterate {c : Cursor} (hc : c.Coherent) (beyond : Decoding Node) {n : Nat}
    (hn : c.limits.maxDepth - c.depth + 1 ≤ n) : (nodeWith^[n] beyond) c = value c :=
  iterate_eq_of_fixed hc (fun hinner => inStep_nodeWith (hinner _ (Nat.lt_succ_self _)))
    value_eq_nodeWith beyond hn

end Outline

/-! ## Slots -/

namespace Decode

variable {registry : Registry} {resolver : Resolver} {inner inner' : Decoding Value}

/-- Fields of a transaction signature, with a given way to read the slot in them. -/
def transactionSignatureWith (registry : Registry) (inner : Decoding Value) :
    Decoding TransactionSignature := do
  let bytes ← read .binary
  let signer ← begun .publicKey publicKeyBody
  let partialTree ← nullable inner
  let metadata ← composite registry .signatureMetadata signatureMetadataFields
  return ⟨bytes, signer, partialTree, metadata⟩

/-- Fields of a signed transaction, with a given way to read the slots in its signatures. -/
def signedTransactionWith (registry : Registry) (inner : Decoding Value) :
    Decoding SignedTransaction := do
  let signatures ← listOf
    (composite registry .transactionSignature (transactionSignatureWith registry inner))
  let body ← composite registry .serializedBytes serializedBytesFields
  return ⟨signatures, .ofBytes body.bytes⟩

/-- One field of a record, with a given way to read a slot. -/
def fieldWith (inner : Decoding Value) : FieldShape → Decoding Field
  | .scalar p => return .scalar (← readScalar p)
  | .slot => return .slot (← inner)

/-- The fields of a record, with a given way to read the slots among them. -/
def recordWith (inner : Decoding Value) : List FieldType → Decoding (List Field)
  | [] => return []
  | type :: rest => do
      let first ← fieldWith inner type.shape
      let others ← recordWith inner rest
      return first :: others

/-- What belongs to a type, with a given way to read the slots in it.  The other types have
none. -/
def fieldsWith (registry : Registry) (inner : Decoding Value) : Kind → Decoding Known
  | .transactionSignature => .transactionSignature <$> transactionSignatureWith registry inner
  | .signedTransaction => .signedTransaction <$> signedTransactionWith registry inner
  | .record type => .record type <$> recordWith inner type.fields
  | k => fields registry (fun _ => inner) k

/-- Decode the composite at the cursor, with a given way to read the slots in it.  There is none
in a nested stream, nor in a composite that is not registered. -/
def dispatchStep (registry : Registry) (inner : Decoding Value) (d : Descriptor) :
    Decoding Value :=
  match registry.resolve d with
  | some (.described k) =>
      match k.entry with
      | .dispatched => entered (.known <$> begun k (fieldsWith registry inner k))
      | .selfDescribing => .known <$> begun k (fieldsWith registry inner k)
  | _ => dispatchWith registry (fun _ => inner) d

/-- Decode a slot, with a given way to read the slots in what it holds. -/
def slotStep (registry : Registry) (inner : Decoding Value) : Decoding Value :=
  slot (dispatchStep registry inner)

/-! ### The step is what is done -/

theorem recordWith_slot (types : List FieldType) :
    recordWith (slot resolver) types = recordFields resolver types := by
  induction types with
  | nil => rfl
  | cons type rest ih =>
      have hfield : fieldWith (slot resolver) type.shape = field resolver type.shape := by
        cases type.shape <;> rfl
      simp only [recordWith, recordFields, ih, hfield]

theorem fieldsWith_slot (k : Kind) :
    fieldsWith registry (slot resolver) k = fields registry resolver k := by
  cases k with
  | record type => exact congrArg (Functor.map (Known.record type)) (recordWith_slot type.fields)
  | _ => rfl

/-- With the slots read as slots, the step is dispatch. -/
theorem dispatchStep_slot (hregistry : registry.Declared) (d : Descriptor) :
    dispatchStep registry (slot resolver) d = dispatchWith registry resolver d := by
  unfold dispatchStep dispatchWith
  cases hresolve : registry.resolve d with
  | none => rfl
  | some constructor =>
      rcases hregistry.isTyped_of_resolve d constructor hresolve with ⟨k, rfl⟩ | rfl
      · unfold invoke
        simp only [Constructor.entry, constructorBody, fieldsWith_slot]
        cases k.entry with
        | dispatched => rfl
        | selfDescribing => rfl
      · rfl

/-- A slot is decoded as the step says, with the slots inside decoded in the same way. -/
theorem decodeSlot_eq_slotStep (hregistry : registry.Declared) {c : Cursor} (hc : c.Coherent) :
    registry.decodeSlot c = slotStep registry registry.decodeSlot c := by
  refine slot_congr fun d _ => ?_
  rw [dispatch_eq hregistry hc]
  exact (congrFun (dispatchStep_slot hregistry d) c).symm

/-! ### Calls for slots -/

theorem inStep_transactionSignatureWith {g : Ground} {n : Nat} (halike : Alike g 0 registry registry)
    (hinner : InStep g n n inner inner') :
    InStep g n n (transactionSignatureWith registry inner)
      (transactionSignatureWith registry inner') :=
  (inStep_read .binary).bind fun _ => (inStep_begun inStep_publicKeyBody).bind fun _ =>
    (inStep_nullable hinner).bind fun _ =>
      (inStep_composite halike inStep_signatureMetadataFields).bind fun _ => .pure _

theorem inStep_signedTransactionWith {g : Ground} {n : Nat} (halike : Alike g 0 registry registry)
    (hinner : InStep g (n + 3) (n + 3) inner inner') :
    InStep g n n (signedTransactionWith registry inner) (signedTransactionWith registry inner') :=
  (inStep_listOf (inStep_composite halike
    (inStep_transactionSignatureWith halike hinner))).bind fun _ =>
      (inStep_composite halike inStep_serializedBytesFields).bind fun _ => .pure _

theorem inStep_recordWith {g : Ground} {n : Nat} (hinner : InStep g n n inner inner')
    (types : List FieldType) :
    InStep g n n (recordWith inner types) (recordWith inner' types) := by
  induction types with
  | nil => exact .pure _
  | cons type rest ih =>
      have hfield : InStep g n n (fieldWith inner type.shape) (fieldWith inner' type.shape) := by
        cases type.shape with
        | scalar p => exact (inStep_readScalar p).bind fun _ => .pure _
        | slot => exact hinner.bind fun _ => .pure _
      exact hfield.bind fun _ => ih.bind fun _ => .pure _

/-- The slots of a type are read on the level of its fields or a deeper one. -/
theorem inStep_fieldsWith {g : Ground} {n : Nat} (halike : Alike g 0 registry registry) (k : Kind)
    (hinner : k.entry = .dispatched → ∀ m, n ≤ m → InStep g m m inner inner') :
    InStep g n n (fieldsWith registry inner k) (fieldsWith registry inner' k) := by
  have hplain := inStep_fields halike k fun hk m hm _ => hinner hk m hm
  cases k with
  | transactionSignature =>
      exact (inStep_transactionSignatureWith halike (hinner rfl n (Nat.le_refl n))).map
  | signedTransaction =>
      exact (inStep_signedTransactionWith halike (hinner rfl _ (Nat.le_add_right n 3))).map
  | record type => exact (inStep_recordWith (hinner rfl n (Nat.le_refl n)) type.fields).map
  | _ => exact hplain

/-- The slots inside a slot are read on deeper levels. -/
theorem inStep_slotStep {g : Ground} {n : Nat} (halike : Alike g 0 registry registry)
    (hinner : ∀ m, n < m → InStep g m m inner inner') :
    InStep g n n (slotStep registry inner) (slotStep registry inner') := by
  refine inStep_slot fun d => ?_
  have hplain : InStep g n n (dispatchWith registry (fun _ => inner) d)
      (dispatchWith registry (fun _ => inner') d) :=
    inStep_dispatchWith halike (fun _ => Nat.zero_le n) fun m hm _ => hinner m hm
  unfold dispatchStep
  split
  next k _ =>
    cases hentry : k.entry with
    | dispatched =>
        exact inStep_entered (inStep_begun
          (inStep_fieldsWith halike k fun _ m hm => hinner m (by omega))).map
    | selfDescribing =>
        exact (inStep_begun (inStep_fieldsWith halike k (by simp [hentry]))).map
  next => exact hplain

/-- Slots are decoded with no more calls within each other than frames may be open and one
more. -/
theorem decodeSlot_eq_iterate (hregistry : registry.Declared) {c : Cursor} (hc : c.Coherent)
    (beyond : Decoding Value) {n : Nat} (hn : c.limits.maxDepth - c.depth + 1 ≤ n) :
    ((slotStep registry)^[n] beyond) c = registry.decodeSlot c :=
  iterate_eq_of_fixed hc
    (inStep_slotStep (hregistry.alike registry rfl rfl fun _ => trivial))
    (decodeSlot_eq_slotStep hregistry) beyond hn

end Decode

end AmqpEnvelope
