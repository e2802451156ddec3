import AmqpEnvelope.Proofs.Decode.Captures
import AmqpEnvelope.Proofs.Grammar.Slot

/-!
# Captures in a grammar

What is captured at any depth of a value was kept by the grammar of some slot in it, and that is
the same whatever stands around the slot (`Capture.Kept`).  So a captured composite is known by
itself: it starts with the descriptor that it is filed under, its body is set apart behind that,
and its bytes are one extent.

* `Yields`: what is true of every value of a grammar, put together as grammars are.
* `Grammar.kept_of_mem_captures`: every capture in a value has been kept.
* `Registry.exists_decodeSlot_of_kept`: and what is to be kept is captured.
-/

namespace AmqpEnvelope

/-! ## Values of a grammar -/

/-- Every value of the grammar has a property. -/
def Yields {α : Type} (P : α → Prop) (g : Grammar α) : Prop :=
  ∀ ⦃bounds : Limits⦄ ⦃n : Nat⦄ ⦃bs : Bytes⦄ ⦃value : α⦄, g bounds n bs value → P value

namespace Yields

variable {α β ι : Type} {P : α → Prop} {Q : β → Prop} {g : Grammar α} {next : α → Grammar β}

theorem fail : Yields P (Grammar.fail : Grammar α) := fun _ _ _ _ h => h.elim

theorem pure {a : α} (ha : P a) : Yields P (pure a : Grammar α) := by
  rintro bounds n bs value ⟨-, -, rfl⟩
  exact ha

theorem bind (hg : Yields P g) (hnext : ∀ a, P a → Yields Q (next a)) :
    Yields Q (g >>= next) := by
  intro bounds n bs value h
  obtain ⟨_, _, _, _, a, -, -, ha, hvalue⟩ := Grammar.bind_iff.mp h
  exact hnext a (hg ha) hvalue

/-- Where it does not matter what came first. -/
theorem after (hnext : ∀ a, Yields Q (next a)) : Yields Q (g >>= next) :=
  bind (P := fun _ => True) (fun _ _ _ _ _ => trivial) fun a _ => hnext a

theorem map {f : α → β} (hg : Yields P g) (hf : ∀ a, P a → Q (f a)) : Yields Q (f <$> g) := by
  intro bounds n bs value h
  obtain ⟨a, ha, rfl⟩ := Grammar.map_iff.mp h
  exact hf a (hg ha)

/-- Where it does not matter what the function is applied to. -/
theorem map_of_forall {f : α → β} (hf : ∀ a, Q (f a)) : Yields Q (f <$> g) :=
  map (P := fun _ => True) (fun _ _ _ _ _ => trivial) fun a _ => hf a

theorem container {heads : HeadGrammar ι} {elements : ι → Grammar α}
    (helements : ∀ info, Yields P (elements info)) :
    Yields P (Grammar.container heads elements) := by
  rintro bounds n bs value ⟨-, -, _, _, info, _, -, -, -, hvalue⟩
  exact helements info hvalue

theorem composite {fields : Descriptor → Grammar α} (hfields : ∀ d, Yields P (fields d)) :
    Yields P (Grammar.composite fields) :=
  container fun raw => container fun _ => hfields raw.descriptor

theorem typed {registry : Registry} {k : Kind} (hg : Yields P g) :
    Yields P (Grammar.typed registry k g) := by
  refine composite fun d => ?_
  split
  · exact hg
  · exact fail

theorem times (hg : Yields P g) (n : Nat) :
    Yields (fun items => ∀ item ∈ items, P item) (Grammar.times g n) := by
  induction n with
  | zero => exact pure (List.forall_mem_nil P)
  | succ n ih =>
      exact hg.bind fun first hfirst => ih.bind fun others hothers =>
        pure (List.forall_mem_cons.mpr ⟨hfirst, hothers⟩)

theorem listOf (hg : Yields P g) :
    Yields (fun items => ∀ item ∈ items, P item) (Grammar.listOf g) :=
  container fun count => hg.times count

theorem nullOr {ofNull : α} (hnull : P ofNull) (hg : Yields P g) :
    Yields P (Grammar.nullOr ofNull g) := by
  intro bounds n bs value h
  unfold Grammar.nullOr at h
  split at h
  · rw [h.2]
    exact hnull
  · exact hg h

theorem nullable (hg : Yields P g) :
    Yields (fun found => ∀ value, found = some value → P value) (Grammar.nullable g) := by
  refine nullOr nofun (hg.map fun a ha value hvalue => ?_)
  obtain rfl := Option.some.inj hvalue
  exact ha

end Yields

/-! ## Captures in values -/

theorem mem_signaturesCaptures {p : Capture} {signatures : List TransactionSignature} :
    p ∈ signaturesCaptures signatures ↔ ∃ signature ∈ signatures, p ∈ signature.captures := by
  induction signatures with
  | nil => simp [signaturesCaptures]
  | cons signature rest ih => simp [signaturesCaptures, ih]

namespace Grammar

variable {registry : Registry} {slots : Grammar Value} {P : Capture → Prop}

section

variable (hslots : Yields (fun value => ∀ p ∈ value.captures, P p) slots)

include hslots

theorem yields_transactionSignature :
    Yields (fun signature => ∀ p ∈ signature.captures, P p)
      (transactionSignature registry slots) := by
  refine .after fun bytes => .after fun signer => ?_
  refine hslots.nullable.bind fun tree htree => .after fun metadata => .pure ?_
  cases tree with
  | none => exact List.forall_mem_nil P
  | some value => exact htree value rfl

theorem yields_signedTransaction :
    Yields (fun signed => ∀ p ∈ signed.captures, P p) (signedTransaction registry slots) := by
  refine (yields_transactionSignature hslots).typed.listOf.bind fun signatures hsignatures =>
    .after fun body => .pure fun p hp => ?_
  obtain ⟨signature, hsignature, hp⟩ := mem_signaturesCaptures.mp hp
  exact hsignatures signature hsignature p hp

theorem yields_recordFields (types : List FieldType) :
    Yields (fun fields => ∀ p ∈ fieldsCaptures fields, P p) (recordFields slots types) := by
  induction types with
  | nil => exact .pure (List.forall_mem_nil P)
  | cons type rest ih =>
      have hfield : Yields (fun value => ∀ p ∈ value.captures, P p) (field slots type.shape) := by
        cases type.shape with
        | scalar primitive => exact .map_of_forall fun scalar => List.forall_mem_nil P
        | slot => exact hslots.map fun _ hvalue => hvalue
      refine hfield.bind fun first hfirst => ih.bind fun others hothers => .pure fun p hp => ?_
      rcases List.mem_append.mp hp with hp | hp
      · exact hfirst p hp
      · exact hothers p hp

/-- Only three kinds of types hold slots; what is captured in the others is nothing. -/
theorem yields_fields (k : Kind) :
    Yields (fun value => ∀ p ∈ value.captures, P p) (fields registry slots k) := by
  cases k with
  | throwable => exact .fail
  | transactionSignature => exact (yields_transactionSignature hslots).map fun _ h => h
  | signedTransaction => exact (yields_signedTransaction hslots).map fun _ h => h
  | record type => exact (yields_recordFields hslots type.fields).map fun _ h => h
  | _ => exact .map_of_forall fun _ => List.forall_mem_nil P

theorem yields_kind (k : Kind) :
    Yields (fun value => ∀ p ∈ value.captures, P p) (kind registry slots k) := by
  unfold kind
  split
  · exact yields_fields hslots k
  · exact (yields_fields hslots k).typed

theorem yields_constructed (k : Constructor) :
    Yields (fun value => ∀ p ∈ value.captures, P p) (constructed registry slots k) := by
  have hcontent : Yields (fun value => ∀ p ∈ value.captures, P p)
      (content registry slots k) := by
    cases k with
    | described k => exact (yields_fields hslots k).map fun _ h => h
    | nestedStream => exact .map_of_forall fun _ => List.forall_mem_nil P
    | scripted script => exact .fail
  unfold constructed
  split
  · exact .composite fun _ => hcontent
  · exact hcontent

end

/-- What a constructor makes is never a capture itself. -/
theorem constructed_ne_captured (k : Constructor) (p : Capture) :
    Yields (fun value => value ≠ .captured p) (constructed registry slots k) := by
  have hcontent : Yields (fun value => value ≠ .captured p) (content registry slots k) := by
    cases k with
    | described k => exact .map_of_forall fun _ => Value.noConfusion
    | nestedStream => exact .map_of_forall fun _ => Value.noConfusion
    | scripted script => exact .fail
  unfold constructed
  split
  · exact .composite fun _ => hcontent
  · exact hcontent

end Grammar

/-! ## Kept composites -/

/-- The capture is what is kept of its own bytes. -/
def Capture.Kept (p : Capture) : Prop :=
  ∃ bounds, Grammar.kept p.descriptor bounds 1 p.bytes (.captured p)

namespace Grammar

variable {registry : Registry} {levels : Nat} {root : Bool} {d : Descriptor} {bounds : Limits}
  {n : Nat} {bs : Bytes} {p : Capture}

theorem kept_captured (h : kept d bounds n bs (.captured p)) :
    n = 1 ∧ bs = p.bytes ∧ d = p.descriptor := by
  obtain ⟨rfl, -, _, _, _, -, -, -, hvalue⟩ := h
  obtain rfl := Value.captured.inj hvalue
  exact ⟨rfl, rfl, rfl⟩

theorem yields_kept (d : Descriptor) :
    Yields (fun value => ∀ p ∈ value.captures, p.Kept) (kept d) := by
  intro bounds n bs value h
  obtain ⟨p, rfl⟩ : ∃ p, value = .captured p := by
    obtain ⟨-, -, _, _, _, -, -, -, hvalue⟩ := h
    exact ⟨_, hvalue⟩
  intro q hq
  obtain rfl := List.mem_singleton.mp hq
  obtain ⟨rfl, rfl, rfl⟩ := kept_captured h
  exact ⟨bounds, h⟩

/-- By induction on the levels: a capture in a slot is the one that is kept there, or it is one in
a slot of what a constructor makes. -/
theorem yields_slot (registry : Registry) (levels : Nat) (root : Bool) :
    Yields (fun value => ∀ p ∈ value.captures, p.Kept) (slot registry levels root) := by
  induction levels generalizing root with
  | zero => exact .fail
  | succ levels ih =>
      refine Yields.nullOr (List.forall_mem_nil _) ?_
      rintro bounds n bs value ⟨d, -, hvalue⟩
      rcases dispatched_cases hvalue with ⟨k, -, hmade⟩ | ⟨-, hkept⟩
      · exact yields_constructed (ih false) k hmade
      · exact yields_kept d hkept

/-- **Every capture in a value has been kept**, at whatever depth it is found. -/
theorem kept_of_mem_captures {t : Target} {value : t.Carrier}
    (h : target registry levels root t bounds n bs value) (hp : p ∈ t.captures value) :
    p.Kept := by
  cases t with
  | slot => exact yields_slot registry levels root h p hp
  | kind k => exact yields_kind (yields_slot registry levels false) k h p hp

/-- A slot that is captured holds a composite without a constructor, and just that is kept. -/
theorem kept_of_slot_captured (h : slot registry levels root bounds n bs (.captured p)) :
    registry.resolve p.descriptor = none ∧ kept p.descriptor bounds n bs (.captured p) := by
  cases levels with
  | zero => exact h.elim
  | succ levels =>
      change nullOr _ _ bounds n bs _ at h
      unfold nullOr at h
      split at h
      · cases h.2
      · obtain ⟨d, -, hvalue⟩ := h
        rcases dispatched_cases hvalue with ⟨k, -, hmade⟩ | ⟨hnone, hkept⟩
        · exact absurd rfl (constructed_ne_captured k p hmade)
        · obtain ⟨-, -, rfl⟩ := kept_captured hkept
          exact ⟨hnone, hkept⟩

/-- A composite that is to be kept makes a captured slot. -/
theorem slot_captured_of_kept (hresolve : registry.resolve p.descriptor = none)
    (haction : registry.settings.unknownTypes.actionFor root = .capture)
    (h : kept p.descriptor bounds n bs (.captured p)) :
    slot registry (levels + 1) root bounds n bs (.captured p) := by
  obtain ⟨-, -, head, raw, body, rfl, hraw, hd, -⟩ := id h
  have hnull : (FormatCode.described.toByte :: (head ++ body)).head? ≠
      some FormatCode.null.toByte := by
    rw [List.head?_cons]
    decide
  show slotWith (dispatched registry (slot registry levels false) root) bounds n _ _
  rw [slotWith, nullOr, if_neg hnull]
  refine ⟨p.descriptor, ⟨head, raw, body, rfl, hraw, hd⟩, ?_⟩
  simp only [dispatched, hresolve, haction]
  exact h

end Grammar

/-- What is to be kept is captured wherever it is offered. -/
theorem Registry.exists_decodeSlot_of_kept {registry : Registry} (hregistry : registry.Declared)
    {c : Cursor} (hc : c.Coherent) {p : Capture} (hresolve : registry.resolve p.descriptor = none)
    (haction : registry.settings.unknownTypes.actionFor c.atRootSlot = .capture)
    (hkept : Grammar.kept p.descriptor c.allowance 1 p.bytes (.captured p))
    (hoffers : c.Offers 1 p.bytes) :
    ∃ after, registry.decodeSlot c = .ok (.captured p) after ∧ c.Passes 1 p.bytes after :=
  (readsAt_slot hregistry _ hc (Nat.lt_succ_self _)).complete (Limits.le_refl _)
    (Grammar.slot_captured_of_kept hresolve haction hkept) hoffers

end AmqpEnvelope
