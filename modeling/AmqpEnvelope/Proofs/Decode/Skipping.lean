import AmqpEnvelope.Proofs.Decode.Reachable
import AmqpEnvelope.Proofs.Grammar.Node
import AmqpEnvelope.Proofs.Grammar.Slot

/-!
# Skipping agrees with decoding

Skipping goes by sizes and decoding by meaning, and still both end at the same place: if
a value is decoded in any way, or outlined, then skipping it succeeds as well and leaves
the same cursor behind.  So a type may be registered or not, and what follows its values
is read in the same way.

Nearly all of this is said by the grammars.  Whatever reads one value follows a grammar
that spans, and skipping accepts every extent that is offered.
-/

namespace AmqpEnvelope

open Cursor

/-! ## Skipping and reading begin no type -/

/-- A reader that succeeds has not begun to read the fields of a type. -/
private def Silent {α : Type} (reader : Decoding α) : Prop :=
  ∀ ⦃c : Cursor⦄ ⦃value : α⦄ ⦃c' : Cursor⦄, reader c = .ok value c' → c'.entered = c.entered

private theorem Silent.bind {α β : Type} {reader : Decoding α} {next : α → Decoding β}
    (hreader : Silent reader) (hnext : ∀ a, Silent (next a)) : Silent (reader >>= next) := by
  intro c value c' h
  obtain ⟨a, c₁, hfirst, hsecond⟩ := bind_eq_ok_iff.mp h
  rw [hnext a hsecond, hreader hfirst]

private theorem Silent.pure {α : Type} (a : α) : Silent (pure a : Decoding α) := by
  intro c value c' h
  obtain ⟨-, rfl⟩ := pure_eq_ok_iff.mp h
  rfl

private theorem Silent.asks {α : Type} (f : Cursor → α) : Silent (asks f) := by
  intro c value c' h
  obtain ⟨-, rfl⟩ := asks_eq_ok_iff.mp h
  rfl

private theorem Silent.throw {α : Type} (e : DecodeError) : Silent (throw e : Decoding α) :=
  fun _ _ _ h => absurd h throw_ne_ok

private theorem silent_take (n : Nat) (what : String) : Silent (take n what) := by
  intro c value c' h
  obtain ⟨-, -, rfl⟩ := take_eq_ok_iff.mp h
  rfl

private theorem silent_claim (what : String) : Silent (claim what) := by
  intro c value c' h
  rcases claim_eq_ok_iff.mp h with ⟨-, rfl⟩ | ⟨frame, outer, -, -, rfl⟩
  · rfl
  · rfl

private theorem silent_formatHere (what : String) : Silent (formatHere what) := by
  rintro c ⟨format, offset⟩ c' h
  obtain ⟨-, -, -, rfl⟩ := formatHere_eq_ok_iff.mp h
  rfl

private theorem silent_payload (category : WidthCategory) (what : String) :
    Silent (payload category what) := by
  cases category with
  | described => exact .pure _
  | fixed size => exact silent_take size what
  | _ width => exact ((silent_take width what).bind fun _ => .pure _).bind fun _ => silent_take _ what

private theorem silent_skipBody (room depth : Nat) : Silent (skipBody room depth) := by
  induction room generalizing depth with
  | zero =>
      unfold skipBody
      refine (silent_formatHere _).bind fun found => ?_
      obtain ⟨format, offset⟩ := found
      dsimp only
      split
      · exact (Silent.asks _).bind fun _ => .throw _
      · exact (silent_payload _ _).bind fun _ => .pure _
  | succ room ih =>
      unfold skipBody
      refine (silent_formatHere _).bind fun found => ?_
      obtain ⟨format, offset⟩ := found
      dsimp only
      split
      · exact (ih (depth + 1)).bind fun _ => ih (depth + 1)
      · exact (silent_payload _ _).bind fun _ => .pure _

theorem skip_entered {c c' : Cursor} (h : skip c = .ok () c') : c'.entered = c.entered := by
  obtain ⟨_, c₁, hclaim, h⟩ := bind_eq_ok_iff.mp h
  obtain ⟨_, _, hget, h⟩ := bind_eq_ok_iff.mp h
  obtain ⟨rfl, rfl⟩ := get_eq_ok_iff.mp hget
  rw [silent_skipBody _ _ h, silent_claim _ hclaim]

theorem read_entered {p : Primitive} {c c' : Cursor} {value : p.Carrier}
    (h : read p c = .ok value c') : c'.entered = c.entered := by
  have hsilent : Silent (read p) := by
    refine ((silent_claim _).bind fun _ => silent_formatHere _).bind fun ⟨format, offset⟩ => ?_
    by_cases hprimitive : format.primitive? = some p
    · simp only [hprimitive, if_true]
      refine (silent_payload _ _).bind fun bytes => ?_
      cases p.interpret format bytes offset with
      | ok value => exact .pure _
      | error e => exact .throw _
    · simp only [hprimitive, if_false]
      exact .throw _
  exact hsilent h

/-! ## Readers of one value -/

/-- The ways to read one value under a registry: as a described type, a list or a value
that may be null, as whatever stands in a slot, or as an outline. -/
inductive ReadsValue (registry : Registry) : {α : Type} → Decoding α → Prop
  | kind (k : Kind) : ReadsValue registry (registry.decodeKind k)
  | listOf (t : Target) : ReadsValue registry (listOf (registry.decodeTarget t))
  | nullable (t : Target) : ReadsValue registry (nullable (registry.decodeTarget t))
  | slot : ReadsValue registry registry.decodeSlot
  | outline : ReadsValue registry Outline.value

/-- Each of them reads one extent and leaves the cursor behind it. -/
theorem ReadsValue.skip_of_ok {registry : Registry} (hregistry : registry.Declared) {α : Type}
    {reader : Decoding α} (hreader : ReadsValue registry reader) {c after : Cursor}
    (hc : c.Coherent) {value : α} (h : reader c = .ok value after) :
    ∃ bs skipped, bs ≠ [] ∧ c.Passes 1 bs after ∧ skip c = .ok () skipped ∧
      c.Passes 1 bs skipped := by
  have hlevels : c.allowance.maxDepth < c.allowance.maxDepth + 1 := Nat.lt_succ_self _
  cases hreader with
  | kind k =>
      exact (Spans.target registry _ _ (.kind k)).skip_of_ok
        (readsAt_target hregistry hc hlevels (.kind k)) hc h
  | listOf t =>
      exact (Spans.listed _).skip_of_ok
        (readsAt_listOf hc (readsInside_target hregistry hc hlevels t)) hc h
  | nullable t =>
      have hspans := Spans.target registry (c.allowance.maxDepth + 1) c.atRootSlot t
      exact hspans.nullable.skip_of_ok
        (readsAt_nullable hc hspans (readsAt_target hregistry hc hlevels t)) hc h
  | slot =>
      exact (Spans.slot registry _ _).skip_of_ok (readsAt_slot hregistry _ hc hlevels) hc h
  | outline =>
      exact (Spans.node _).skip_of_ok (readsAt_value hc) hc (map_eq_ok_iff.mpr ⟨value, h, rfl⟩)

/-- **Skipping ends where decoding does.**  Whatever is decoded or outlined at a reachable
cursor can be skipped there, and the cursor that is left is the same, up to the note of
the types that decoding has begun: one element of the innermost frame is claimed, and
nothing else about the frames has changed. -/
theorem Registry.skip_agrees {registry : Registry} (hregistry : registry.Declared) {α : Type}
    {reader : Decoding α} (hreader : ReadsValue registry reader) {bytes : Bytes}
    {limits : Limits} {c after : Cursor} (hc : Reachable bytes limits c) {value : α}
    (h : reader c = .ok value after) :
    skip c = .ok () { after with entered := c.entered } ∧ c.position < after.position ∧
      after.frames = claimAll 1 c.frames ∧ after.limits = c.limits ∧ after.root = c.root := by
  obtain ⟨bs, skipped, hne, hpasses, hskip, hpasses'⟩ :=
    hreader.skip_of_ok hregistry hc.coherent h
  have hsame : skipped = { after with entered := c.entered } := by
    rw [hpasses'.2, skip_entered hskip, hpasses.2]
    rfl
  refine ⟨by rw [hskip, hsame], ?_⟩
  rw [hpasses.2]
  refine ⟨?_, rfl, rfl, rfl⟩
  exact Nat.lt_add_of_pos_right (List.length_pos_iff.mpr hne)

/-- A duration, and a byte behind it. -/
private def onDuration : Cursor := Cursor.start (Registry.nineSeconds ++ [0x40]) ⟨4, 10⟩

theorem skip_agrees_on_duration :
    let reader := Registry.numberedDurations.decodeTarget (.kind .duration)
    ∃ after, Cursor.nullable reader onDuration = .ok (some (.duration ⟨9, 0⟩)) after ∧
      after.position = 9 ∧
      skip onDuration = .ok () { after with entered := onDuration.entered } ∧
        onDuration.position < after.position ∧ after.frames = claimAll 1 onDuration.frames ∧
          after.limits = onDuration.limits ∧ after.root = onDuration.root := by
  intro reader
  have hdecode : Cursor.nullable reader onDuration = .ok (some (.duration ⟨9, 0⟩))
      ⟨[0x40], 9, 10, [], ⟨4, 10⟩, none, [Kind.duration.typeName]⟩ := by
    rfl
  exact ⟨_, hdecode, rfl, Registry.skip_agrees Registry.numberedDurations_declared
    (.nullable (.kind .duration)) .start hdecode⟩

end AmqpEnvelope
