import AmqpEnvelope.Proofs.Decode.Captures
import AmqpEnvelope.Proofs.Decode.Reachable
import AmqpEnvelope.Proofs.Framing.RootSlot
import AmqpEnvelope.Proofs.Lockstep.Stream

/-!
# The actions for unknown composites

There is one action for an unknown composite at the root and one for those in the slots below,
and neither reaches further than its own slots (`Registry.actions_govern`).

The root is known by its mark, the number of open frames and the place.  A slot below the root
stands in one frame more at least, so it is never taken for the root, whatever the place; and
the root itself is dispatched where it was marked.
-/

namespace AmqpEnvelope

open Cursor

/-- Below the marked slot no slot is the root. -/
theorem Ground.Level.not_atRootSlot {g : Ground} {n depth place : Nat} {c : Cursor}
    (h : g.Level n c) (hroot : g.root = some (depth, place)) (hn : depth < n) :
    c.atRootSlot = false := by
  rw [atRootSlot, h.root_eq, hroot, h.depth_eq, beq_eq_false_iff_ne]
  intro hsame
  cases hsame
  exact Nat.lt_irrefl n hn

namespace Registry

/-- The registry with other actions for unknown composites. -/
def withPolicy (r : Registry) (policy : UnknownPolicy) : Registry :=
  { r with settings := { r.settings with unknownTypes := policy } }

variable {registry : Registry} {d : Descriptor} {c root : Cursor} {enveloped : Bool}
  {bytes : Bytes} {action action' nested : UnknownAction}

/-! ## Below the root -/

/-- From the level below the root on, the action for the root makes no difference. -/
theorem alike_below_root (hregistry : registry.Declared)
    (hroot : registry.rootSlot bytes = .ok enveloped root) :
    Alike (root.ground (coherent_of_rootSlot hroot) (Limits.le_refl _)) (root.depth + 1)
      (registry.withPolicy ⟨action, nested⟩) (registry.withPolicy ⟨action', nested⟩) where
  entries_eq := rfl
  typed := hregistry.isTyped_of_resolve
  action_eq := fun hn hlevel => by
    rw [hlevel.not_atRootSlot (root_of_toRoot hroot) hn]
    rfl
  fault_of_reject := fun _ _ _ _ _ => trivial

theorem decodeKind_below_root (hregistry : registry.Declared)
    (hroot : registry.rootSlot bytes = .ok enveloped root) (k : Kind) :
    (registry.withPolicy ⟨action', nested⟩).decodeKind k root =
      (registry.withPolicy ⟨action, nested⟩).decodeKind k root :=
  (inStep_decodeKind (alike_below_root hregistry hroot) (Nat.le_refl _) k abreast_ground
    level_ground).eq_of_ground

/-- A known composite at the root stands above all slots that are looked at. -/
theorem dispatch_below_root (hregistry : registry.Declared)
    (hroot : registry.rootSlot bytes = .ok enveloped root) (hknown : registry.contains d = true) :
    Decode.dispatch (registry.withPolicy ⟨action', nested⟩) d root =
      Decode.dispatch (registry.withPolicy ⟨action, nested⟩) d root := by
  refine (Decode.agree_dispatch (alike_below_root hregistry hroot) (fun hnone => ?_)
    (Nat.le_refl _) abreast_ground level_ground).eq_of_ground
  -- The root itself is above that level, but it is not unknown.
  have hnone : registry.resolve d = none := hnone
  rw [contains, hnone] at hknown
  cases hknown

/-! ## At the root -/

/-- An unknown composite is kept or refused, as the action for its slot says. -/
theorem dispatch_unknown (registry : Registry) (hunknown : registry.resolve d = none) (c : Cursor) :
    Decode.dispatch registry d c =
      match registry.settings.unknownTypes.actionFor c.atRootSlot with
      | .reject => .error (.unknownDescriptor d c.position) c
      | .capture => Decode.captureComposite d c := by
  rw [Decode.dispatch]
  unfold Decode.dispatchWith
  rw [hunknown]
  change (match registry.settings.unknownTypes.actionFor c.atRootSlot with
    | .reject => throw (.unknownDescriptor d c.position)
    | .capture => Decode.captureComposite d : Decoding Value) c = _
  cases registry.settings.unknownTypes.actionFor c.atRootSlot with
  | reject => rfl
  | capture => rfl

theorem actionFor_root (hroot : registry.rootSlot bytes = .ok enveloped root)
    (policy : UnknownPolicy) : policy.actionFor root.atRootSlot = policy.topLevel := by
  have hat : root.atRootSlot = true := by
    rw [atRootSlot, root_of_toRoot hroot]
    exact beq_self_eq_true _
  rw [hat]
  rfl

/-- At an unknown root the action for the root decides, and no other. -/
theorem decodeTarget_unknown_root (hroot : registry.rootSlot bytes = .ok enveloped root)
    (hpeek : peekDescriptor root = .ok (some d) root) (hunknown : registry.contains d = false)
    (action nested : UnknownAction) :
    (registry.withPolicy ⟨action, nested⟩).decodeTarget .slot root =
      match action with
      | .reject => .error (.unknownDescriptor d root.position) root
      | .capture => Decode.captureComposite d root := by
  have hnone : (registry.withPolicy ⟨action, nested⟩).resolve d = none :=
    Option.not_isSome_iff_eq_none.mp (Bool.eq_false_iff.mp hunknown)
  have hslot : (registry.withPolicy ⟨action, nested⟩).decodeTarget .slot root =
      Decode.dispatch (registry.withPolicy ⟨action, nested⟩) d root := slot_of_peekDescriptor hpeek
  have haction := actionFor_root hroot ⟨action, nested⟩
  rw [hslot, dispatch_unknown _ hnone]
  change (match UnknownPolicy.actionFor ⟨action, nested⟩ root.atRootSlot with
    | .reject => _
    | .capture => _) = _
  rw [haction]

/-! ## Refusals and captures -/

theorem captures_rejectAll (hregistry : registry.Declared) (t : Target) :
    Gives (fun value => t.captures value = [])
      ((registry.withPolicy .rejectAll).decodeTarget t) :=
  (registry.withPolicy .rejectAll).captures_decodeTarget hregistry.isTyped_of_resolve rfl t

/-- On some ground around a cursor no error is a refusal. -/
theorem exists_ground_without_refusals (hc : c.Coherent) :
    ∃ g : Ground, g.Whole ∧ g.limits = g.limits' ∧ (∀ e, g.Fault e → e.isUnknown = false) ∧
      Abreast g c c ∧ g.Level c.depth c := by
  have habreast : Abreast (c.ground hc (Limits.le_refl _)) c c := abreast_ground
  have hwhole : (c.ground hc (Limits.le_refl _)).Whole := whole_ground
  exact
    ⟨{ c.ground hc (Limits.le_refl _) with
        Fault := fun e => e.isUnknown = false
        fault_of := fun _ hunknown _ _ => hunknown },
      hwhole, rfl, fun _ => id, { habreast with }, Ground.level_self rfl rfl rfl⟩

/-- Where every unknown composite is kept, no action is to refuse one. -/
theorem alike_captureAll (hregistry : registry.Declared) (g : Ground) :
    Alike g 0 (registry.withPolicy .captureAll) (registry.withPolicy .captureAll) where
  entries_eq := rfl
  typed := hregistry.isTyped_of_resolve
  action_eq := fun _ _ => rfl
  fault_of_reject := fun _ _ _ _ hreject => by
    have hcapture : ∀ atRoot, UnknownPolicy.captureAll.actionFor atRoot = .capture :=
      fun atRoot => ite_self _
    cases (hcapture _).symm.trans hreject

theorem decodeTarget_captureAll (hregistry : registry.Declared) (hc : c.Coherent) (t : Target)
    {e : DecodeError} {left : Cursor}
    (h : (registry.withPolicy .captureAll).decodeTarget t c = .error e left) :
    e.isUnknown = false := by
  obtain ⟨g, -, hlimits, hfault, habreast, hlevel⟩ := exists_ground_without_refusals hc
  have hagree :=
    inStep_decodeTarget (alike_captureAll hregistry g) (Nat.zero_le _) t habreast hlevel
  rw [h] at hagree
  exact hfault e (hagree.fault hlimits)

theorem decodeRoot_captureAll (hregistry : registry.Declared) (t : Target) {e : DecodeError}
    (h : (registry.withPolicy .captureAll).decodeRoot t bytes = .error e) :
    e.isUnknown = false := by
  obtain ⟨g, hwhole, hlimits, hfault, habreast, hlevel⟩ :=
    exists_ground_without_refusals (start_coherent bytes registry.settings.limits)
  obtain ⟨root, hagree⟩ : AgreeForRoot g 0
      ((registry.withPolicy .captureAll).readStream
        ((registry.withPolicy .captureAll).decodeTarget t) bytes)
      ((registry.withPolicy .captureAll).readStream
        ((registry.withPolicy .captureAll).decodeTarget t) bytes) :=
    agree_rootValue _ hwhole habreast hlevel fun root m =>
      inStep_decodeTarget (alike_captureAll hregistry _) (Nat.zero_le m) t
  unfold decodeRoot at h
  generalize (registry.withPolicy .captureAll).readStream _ bytes = stream at h hagree
  cases stream with
  | ok value left => cases h
  | error e' left =>
      cases h
      exact hfault e (hagree.fault hlimits)

/-! ## Both actions -/

/-- Each of the two actions for unknown composites governs its own slots. -/
structure ActionsGovern (registry : Registry) : Prop where
  /-- Unless the root is a composite with an unknown descriptor, the action for the root makes no
  difference: not at null, not at what is no described value, and not at a known descriptor. -/
  topLevel_idle : ∀ (bytes : Bytes) (action action' nested : UnknownAction),
    (∀ enveloped root d, registry.rootSlot bytes = .ok enveloped root →
      peekDescriptor root = .ok (some d) root → registry.contains d = true) →
    (registry.withPolicy ⟨action', nested⟩).decodeAny bytes =
      (registry.withPolicy ⟨action, nested⟩).decodeAny bytes
  /-- If it is one, then the action for the other slots makes none. -/
  nested_idle : ∀ (bytes : Bytes) (topLevel action action' : UnknownAction) {enveloped : Bool}
    {root : Cursor} {d : Descriptor}, registry.rootSlot bytes = .ok enveloped root →
      peekDescriptor root = .ok (some d) root → registry.contains d = false →
    (registry.withPolicy ⟨topLevel, action'⟩).decodeAny bytes =
      (registry.withPolicy ⟨topLevel, action⟩).decodeAny bytes
  /-- If it is to be refused, it is refused by its descriptor, where the root stands. -/
  unknown_root_refused : ∀ (bytes : Bytes) (nested : UnknownAction) {enveloped : Bool}
    {root : Cursor} {d : Descriptor}, registry.rootSlot bytes = .ok enveloped root →
      peekDescriptor root = .ok (some d) root → registry.contains d = false →
    (registry.withPolicy ⟨.reject, nested⟩).decodeAny bytes =
      .error (.unknownDescriptor d root.position)
  /-- A root of a described type is no slot. -/
  typed_root : ∀ (k : Kind) (bytes : Bytes) (action action' nested : UnknownAction),
    (registry.withPolicy ⟨action', nested⟩).decodeRoot (.kind k) bytes =
      (registry.withPolicy ⟨action, nested⟩).decodeRoot (.kind k) bytes
  /-- Where all are to be refused, nothing that is decoded holds a capture, at any depth. -/
  rejectAll : ∀ (t : Target) (c : Cursor) {value : t.Carrier} {c' : Cursor},
    (registry.withPolicy .rejectAll).decodeTarget t c = .ok value c' → t.captures value = []
  rejectAll_root : ∀ (t : Target) (bytes : Bytes) {value : t.Carrier},
    (registry.withPolicy .rejectAll).decodeRoot t bytes = .ok value → t.captures value = []
  /-- Where all are to be kept, none is refused. -/
  captureAll : ∀ (t : Target) {bytes : Bytes} {limits : Limits} {c : Cursor},
    Reachable bytes limits c → ∀ (d : Descriptor) (offset : Nat) (left : Cursor),
      (registry.withPolicy .captureAll).decodeTarget t c ≠ .error (.unknownDescriptor d offset) left
  captureAll_root : ∀ (t : Target) (bytes : Bytes) (d : Descriptor) (offset : Nat),
    (registry.withPolicy .captureAll).decodeRoot t bytes ≠ .error (.unknownDescriptor d offset)

/-- **The two actions for unknown composites govern exactly their own slots.** -/
theorem actions_govern (hregistry : registry.Declared) : registry.ActionsGovern where
  topLevel_idle := fun bytes action action' nested hknown =>
    decodeRoot_congr rfl rfl fun enveloped root hroot =>
      slot_congr fun d hpeek =>
        dispatch_below_root hregistry hroot (hknown enveloped root d hroot hpeek)
  nested_idle := fun bytes topLevel action action' enveloped root d hroot hpeek hunknown => by
    refine decodeRoot_congr rfl rfl fun enveloped' root' hroot' => ?_
    -- The root slot is reached without a look at the actions, so it is this one.
    cases hroot.symm.trans hroot'
    exact (decodeTarget_unknown_root hroot hpeek hunknown topLevel action').trans
      (decodeTarget_unknown_root hroot hpeek hunknown topLevel action).symm
  unknown_root_refused := fun bytes nested enveloped root d hroot hpeek hunknown => by
    have hrefused := decodeTarget_unknown_root hroot hpeek hunknown .reject nested
    exact (registry.withPolicy ⟨.reject, nested⟩).decodeRoot_of_error hroot hrefused
  typed_root := fun k bytes action action' nested =>
    decodeRoot_congr rfl rfl fun enveloped root hroot => decodeKind_below_root hregistry hroot k
  rejectAll := fun t c value c' h =>
    captures_rejectAll hregistry t h
  rejectAll_root := fun t bytes value h => by
    obtain ⟨root, left, hdecode⟩ := exists_of_decodeRoot h
    exact captures_rejectAll hregistry t hdecode
  captureAll := fun t bytes limits c h d offset left herror => by
    cases decodeTarget_captureAll hregistry h.coherent t herror
  captureAll_root := fun t bytes d offset herror => by
    cases decodeRoot_captureAll hregistry t herror

/-- An empty composite with a descriptor that is not registered, behind a preamble. -/
private def unknownRoot : Bytes := streamMagic ++ [dataSection, 0x00, 0x53, 0x08, 0x45]

/-- The cursor in front of that composite. -/
private def atUnknownRoot : Cursor :=
  ⟨[0x00, 0x53, 0x08, 0x45], 8, 12, [], Limits.standard, some (0, 8), []⟩

/-- It is refused where it stands if the action for the root is to refuse it, and if that is to keep
it, the action for other slots does not matter. -/
theorem unknown_root_governed :
    (numberedDurations.withPolicy ⟨.reject, .capture⟩).decodeAny unknownRoot =
        .error (.unknownDescriptor (.code 8) 8) ∧
      (numberedDurations.withPolicy ⟨.capture, .reject⟩).decodeAny unknownRoot =
        (numberedDurations.withPolicy ⟨.capture, .capture⟩).decodeAny unknownRoot := by
  have hgovern : numberedDurations.ActionsGovern := actions_govern numberedDurations_declared
  have hroot : numberedDurations.rootSlot unknownRoot = .ok false atUnknownRoot := by
    rfl
  have hpeek : peekDescriptor atUnknownRoot = .ok (some (.code 8)) atUnknownRoot := by
    rfl
  exact ⟨hgovern.unknown_root_refused unknownRoot .capture hroot hpeek rfl,
    hgovern.nested_idle unknownRoot .capture .capture .reject hroot hpeek rfl⟩

end Registry

end AmqpEnvelope
