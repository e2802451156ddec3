import AmqpEnvelope.Proofs.Cursor.Outcome
import AmqpEnvelope.Proofs.Registry.Declared
import AmqpEnvelope.Decode.Dispatch

/-!
# Captures in a value

A captured composite comes from one place only: dispatch without a constructor, where the settings
say that it is to be kept.  So where they never say so, nothing that is decoded holds a capture,
at any depth (`Registry.captures_decodeTarget`).

What is shown of each reader is what it gives when it succeeds, so the readers that give no
values with slots need not be looked into.
-/

namespace AmqpEnvelope

/-! ## Captures at any depth -/

mutual

/-- The captured composites in a value, at any depth. -/
def Value.captures : Value → List Capture
  | .null => []
  | .known value => value.captures
  | .captured capture => [capture]
  | .serialized _ => []
termination_by structural value => value

/-- The captured composites in a value of a described type. -/
def Known.captures : Known → List Capture
  | .transactionSignature signature => signature.captures
  | .signedTransaction signed => signed.captures
  | .record _ fields => fieldsCaptures fields
  | _ => []
termination_by structural value => value

/-- The captured composites in the tree of a signature. -/
def TransactionSignature.captures : TransactionSignature → List Capture
  | ⟨_, _, tree, _⟩ => treeCaptures tree
termination_by structural signature => signature

/-- The captured composites in the signatures.  The body stays serialised. -/
def SignedTransaction.captures : SignedTransaction → List Capture
  | ⟨signatures, _⟩ => signaturesCaptures signatures
termination_by structural signed => signed

/-- The captured composites in a field. -/
def Field.captures : Field → List Capture
  | .scalar _ => []
  | .slot value => value.captures
termination_by structural field => field

/-- The captured composites in a tree, if there is one. -/
def treeCaptures : Option Value → List Capture
  | none => []
  | some value => value.captures
termination_by structural tree => tree

/-- The captured composites in a list of signatures. -/
def signaturesCaptures : List TransactionSignature → List Capture
  | [] => []
  | signature :: rest => signature.captures ++ signaturesCaptures rest
termination_by structural signatures => signatures

/-- The captured composites in a list of fields. -/
def fieldsCaptures : List Field → List Capture
  | [] => []
  | field :: rest => field.captures ++ fieldsCaptures rest
termination_by structural fields => fields

end

/-- The captured composites in what was decoded for a target. -/
def Target.captures : (t : Target) → t.Carrier → List Capture
  | .slot => Value.captures
  | .kind _ => Known.captures

/-! ## What readers give -/

namespace Cursor

variable {α β : Type} {P : α → Prop} {Q : β → Prop}

/-- Where the reader succeeds, what it gives has a property. -/
def Gives (P : α → Prop) (reader : Decoding α) : Prop :=
  ∀ ⦃c : Cursor⦄ ⦃value : α⦄ ⦃c' : Cursor⦄, reader c = .ok value c' → P value

namespace Gives

variable {reader : Decoding α} {next : α → Decoding β}

theorem bind (hreader : Gives P reader) (hnext : ∀ a, P a → Gives Q (next a)) :
    Gives Q (reader >>= next) := by
  intro c value c' h
  obtain ⟨a, c₁, hfirst, hsecond⟩ := bind_eq_ok_iff.mp h
  exact hnext a (hreader hfirst) hsecond

/-- Where it does not matter what came first. -/
theorem after (hnext : ∀ a, Gives Q (next a)) : Gives Q (reader >>= next) :=
  bind (P := fun _ => True) (fun _ _ _ _ => trivial) fun a _ => hnext a

theorem map {f : α → β} (hreader : Gives P reader) (hf : ∀ a, P a → Q (f a)) :
    Gives Q (f <$> reader) := by
  intro c value c' h
  obtain ⟨a, hfirst, rfl⟩ := map_eq_ok_iff.mp h
  exact hf a (hreader hfirst)

theorem pure {a : α} (h : P a) : Gives P (pure a : Decoding α) := by
  intro c value c' hpure
  obtain ⟨rfl, -⟩ := pure_eq_ok_iff.mp hpure
  exact h

theorem throw (e : DecodeError) : Gives P (throw e : Decoding α) :=
  fun _ _ _ h => absurd h throw_ne_ok

theorem collect (hreader : Gives P reader) (count : Nat) {done : List α}
    (hdone : ∀ a ∈ done, P a) :
    Gives (fun items => ∀ a ∈ items, P a) (collect reader count done) := by
  induction count generalizing done with
  | zero => exact .pure fun a ha => hdone a (List.mem_reverse.mp ha)
  | succ count ih =>
      refine hreader.bind fun item hitem => ih fun a ha => ?_
      rcases List.mem_cons.mp ha with rfl | ha
      · exact hitem
      · exact hdone a ha

theorem listOf (hreader : Gives P reader) : Gives (fun items => ∀ a ∈ items, P a) (listOf reader) :=
  after fun count => (hreader.collect count (List.forall_mem_nil P)).bind fun _ hitems =>
    after fun _ => .pure hitems

theorem nullable (hreader : Gives P reader) :
    Gives (fun found => ∀ a, found = some a → P a) (nullable reader) := by
  refine after fun null => ?_
  cases null with
  | true => exact after fun _ => .pure nofun
  | false => exact hreader.bind fun a ha => .pure fun b hb => Option.some.inj hb ▸ ha

end Gives

end Cursor

open Cursor

/-! ## Decoding without captures -/

theorem signaturesCaptures_eq_nil {signatures : List TransactionSignature}
    (h : ∀ signature ∈ signatures, signature.captures = []) :
    signaturesCaptures signatures = [] := by
  induction signatures with
  | nil => rfl
  | cons signature rest ih =>
      obtain ⟨hfirst, hrest⟩ := List.forall_mem_cons.mp h
      rw [signaturesCaptures, hfirst, ih hrest, List.append_nil]

namespace Decode

variable {α : Type} {P : α → Prop} {registry : Registry} {resolver : Resolver}

theorem gives_begun {k : Kind} {fields : Decoding α} (hfields : Gives P fields) :
    Gives P (begun k fields) :=
  .after fun _ => hfields

theorem gives_composite {k : Kind} {fields : Decoding α} (hfields : Gives P fields) :
    Gives P (composite registry k fields) := by
  refine .after fun offset => .after fun d => ?_
  by_cases haccepts : registry.accepts k d = true
  · simp only [haccepts, if_true]
    exact (gives_begun hfields).bind fun _ hvalue => .after fun _ => .pure hvalue
  · simp only [haccepts]
    exact .throw _

section

variable (hresolver : ∀ d, Gives (fun value => value.captures = []) (resolver d))

include hresolver

theorem gives_slot : Gives (fun value => value.captures = []) (slot resolver) := by
  refine .after fun null => ?_
  cases null with
  | true => exact .after fun _ => .pure rfl
  | false =>
      refine .after fun found => ?_
      cases found with
      | some d => exact hresolver d
      | none => exact .after fun _ => .throw _

theorem gives_transactionSignatureFields :
    Gives (fun signature => signature.captures = [])
      (transactionSignatureFields registry resolver) := by
  refine .after fun bytes => .after fun signer => ?_
  refine (Gives.nullable (gives_slot hresolver)).bind fun tree htree =>
    .after fun metadata => .pure ?_
  cases tree with
  | none => rfl
  | some value => exact htree value rfl

theorem gives_signedTransactionFields :
    Gives (fun signed => signed.captures = []) (signedTransactionFields registry resolver) :=
  (Gives.listOf (gives_composite (gives_transactionSignatureFields hresolver))).bind
    fun _ hsignatures => .after fun _ => .pure (signaturesCaptures_eq_nil hsignatures)

theorem gives_recordFields (types : List FieldType) :
    Gives (fun fields => fieldsCaptures fields = []) (recordFields resolver types) := by
  induction types with
  | nil => exact .pure rfl
  | cons type rest ih =>
      have hfield : Gives (fun field => field.captures = []) (field resolver type.shape) := by
        cases type.shape with
        | scalar p => exact .after fun _ => .pure rfl
        | slot => exact (gives_slot hresolver).bind fun _ hvalue => .pure hvalue
      refine hfield.bind fun first hfirst => ih.bind fun others hothers => .pure ?_
      rw [fieldsCaptures, hfirst, hothers, List.append_nil]

theorem gives_fields (k : Kind) :
    Gives (fun value => value.captures = []) (fields registry resolver k) := by
  have hplain : ∀ {α : Type} (reader : Decoding α) (f : α → Known), (∀ a, (f a).captures = []) →
      Gives (fun value => value.captures = []) (f <$> reader) := fun reader f hf =>
    Gives.map (P := fun _ => True) (fun _ _ _ _ => trivial) fun a _ => hf a
  cases k with
  | throwable => exact .after fun _ => .throw _
  | transactionSignature => exact (gives_transactionSignatureFields hresolver).map fun _ h => h
  | signedTransaction => exact (gives_signedTransactionFields hresolver).map fun _ h => h
  | record type => exact (gives_recordFields hresolver type.fields).map fun _ h => h
  | _ => exact hplain _ _ fun _ => rfl

theorem gives_target (t : Target) :
    Gives (fun value => t.captures value = []) (target registry resolver t) := by
  cases t with
  | slot => exact gives_slot hresolver
  | kind k =>
      change Gives _ (kind registry resolver k)
      unfold kind
      split
      · exact gives_begun (gives_fields hresolver k)
      · exact gives_composite (gives_fields hresolver k)

theorem gives_invoke {constructor : Constructor} (htyped : constructor.IsTyped) :
    Gives (fun value => value.captures = []) (invoke registry resolver constructor) := by
  have hbody : Gives (fun value => value.captures = [])
      (constructorBody registry resolver constructor) := by
    rcases htyped with ⟨k, rfl⟩ | rfl
    · exact (gives_begun (gives_fields hresolver k)).map fun _ h => h
    · exact Gives.map (P := fun _ => True) (fun _ _ _ _ => trivial) fun _ _ => rfl
  unfold invoke
  split
  · exact .after fun _ => hbody.bind fun _ hvalue => .after fun _ => .pure hvalue
  · exact hbody

theorem gives_dispatchWith
    (htyped : ∀ d constructor, registry.resolve d = some constructor → constructor.IsTyped)
    (hpolicy : registry.settings.unknownTypes = .rejectAll) (d : Descriptor) :
    Gives (fun value => value.captures = []) (dispatchWith registry resolver d) := by
  unfold dispatchWith
  cases hresolve : registry.resolve d with
  | some constructor => exact gives_invoke hresolver (htyped d _ hresolve)
  | none =>
      refine .after fun c => ?_
      -- Both actions are to refuse, so it does not matter which slot this is.
      have hreject : registry.settings.unknownTypes.actionFor c.atRootSlot = .reject := by
        rw [hpolicy]
        exact ite_self _
      simp only [hreject]
      exact .throw _

end

/-- By induction on what is left to happen at the cursor.  A request that the guard refuses gives
nothing. -/
theorem gives_dispatch
    (htyped : ∀ d constructor, registry.resolve d = some constructor → constructor.IsTyped)
    (hpolicy : registry.settings.unknownTypes = .rejectAll) (d : Descriptor) :
    Gives (fun value => value.captures = []) (dispatch registry d) := by
  intro c value c' h
  induction hpotential : c.potential using Nat.strongRecOn generalizing d c value c' with
  | ind p ih =>
      rw [dispatch] at h
      refine gives_dispatchWith (fun inner c₁ value₁ c₁' h₁ => ?_) htyped hpolicy d h
      by_cases hless : c₁.potential < c.potential
      · rw [if_pos hless] at h₁
        exact ih _ (hpotential ▸ hless) inner h₁ rfl
      · rw [if_neg hless] at h₁
        cases h₁

end Decode

/-- Where unknown composites are never to be kept, no value that is decoded holds a capture. -/
theorem Registry.captures_decodeTarget (registry : Registry)
    (htyped : ∀ d constructor, registry.resolve d = some constructor → constructor.IsTyped)
    (hpolicy : registry.settings.unknownTypes = .rejectAll) (t : Target) :
    Gives (fun value => t.captures value = []) (registry.decodeTarget t) :=
  Decode.gives_target (Decode.gives_dispatch htyped hpolicy) t

end AmqpEnvelope
