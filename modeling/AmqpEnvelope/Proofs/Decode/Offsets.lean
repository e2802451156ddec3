import AmqpEnvelope.Proofs.Decode.Reachable
import AmqpEnvelope.Proofs.Lockstep.Outline

/-!
# Offsets of errors

An error refers to a byte of the value that is being read: not to one before the cursor, and not
to one behind the innermost declared end, so not to one behind the input
(`Registry.errors_point_into`).

A walk is in step with itself.  On a ground that begins at the cursor, reaches as far as the
innermost declared end, and on which only errors in between may arise (`Cursor.reach`), that says
where its errors are.  What leaves frames that were open before is not in step on any ground with
these frames around; it fails where the cursor stands.
-/

namespace AmqpEnvelope

open Cursor

/-- The error refers to a place between the cursor and the innermost declared end, both
included. -/
structure DecodeError.PointsInto (e : DecodeError) (c : Cursor) : Prop where
  position_le : c.position ≤ e.offset
  le_bound : e.offset ≤ c.bound

namespace Cursor

/-! ## As far as the innermost end -/

private theorem reach_limits_le (c : Cursor) : c.limits ≤ c.limits := Limits.le_refl c.limits

private theorem reach_around_eq (c : Cursor) :
    ((c.frames.map Frame.endsAt).findSome? id).getD c.size =
      ((c.frames.map Frame.endsAt).findSome? id).getD c.size := rfl

private theorem reach_around_le (c : Cursor) :
    ((c.frames.map Frame.endsAt).findSome? id).getD c.size ≤ c.bound := by
  have hbound : c.bound = ((c.frames.map Frame.endsAt).findSome? id).getD c.size := by
    rw [bound, innermostEnd?_eq_findSome?]
  exact Nat.le_of_eq hbound.symm

/-- The ground of a walk that is in step with itself, as far as the innermost declared end. -/
def reach (c : Cursor) : Ground where
  around := c.frames.map Frame.endsAt
  start := c.position
  horizon := c.bound
  size := c.size
  size' := c.size
  limits := c.limits
  limits' := c.limits
  root := c.root
  begun := c.entered
  begun' := c.entered
  Fault := fun e => e.PointsInto c
  limits_le := reach_limits_le c
  around_le := reach_around_le c
  around_eq := reach_around_eq c
  fault_of := fun _ _ hstart hend => ⟨hstart, hend⟩

variable {c : Cursor}

theorem abreast_reach (hc : c.Coherent) : Abreast c.reach c c where
  coherent := hc
  coherent' := hc
  position_eq := rfl
  frames_eq := rfl
  root_eq := rfl
  size_eq := rfl
  size_eq' := rfl
  limits_eq := rfl
  limits_eq' := rfl
  same_bytes := rfl
  begun := ⟨[], rfl, rfl⟩

theorem level_reach : c.reach.Level c.depth c := Ground.level_self rfl rfl rfl

/-- Outside all frames the innermost end is that of the input. -/
theorem whole_reach (hframes : c.frames = []) : c.reach.Whole := by
  refine ⟨rfl, ?_⟩
  change c.size ≤ c.bound
  rw [bound, hframes]
  exact Nat.le_refl _

end Cursor

/-! ## Errors on a ground -/

/-- Every error of the outcome is one that may arise on the ground. -/
def FailsOn (g : Ground) {α : Type} (r : EStateM.Result DecodeError Cursor α) : Prop :=
  ∀ ⦃e c'⦄, r = .error e c' → g.Fault e

section

variable {α β : Type} {g : Ground} {k m n : Nat} {c c' : Cursor}

theorem Agree.failsOn {r r' : EStateM.Result DecodeError Cursor α} (h : Agree g n r r')
    (hlimits : g.limits = g.limits') : FailsOn g r := by
  rintro e c₁ rfl
  exact h.fault hlimits

theorem FailsOn.ok {a : α} : FailsOn g (.ok a c) := nofun

theorem FailsOn.error {e : DecodeError} (hfault : g.Fault e) :
    FailsOn g (.error e c : EStateM.Result DecodeError Cursor α) := by
  rintro _ _ ⟨⟩
  exact hfault

theorem FailsOn.map {f : α → β} {reader : Decoding α} (h : FailsOn g (reader c)) :
    FailsOn g ((f <$> reader) c) := by
  intro e c₁ herror
  simp only [Functor.map, EStateM.map] at herror
  cases hread : reader c with
  | ok a c₂ =>
      rw [hread] at herror
      cases herror
  | error e' c₂ =>
      rw [hread] at herror
      cases herror
      exact h hread

/-- A sequence fails as its parts do, the second one where the first has gone to in step. -/
theorem InStep.failsOn_bind {reader : Decoding α} {next : α → Decoding β}
    (hreader : InStep g n k reader reader) (hlimits : g.limits = g.limits')
    (h : Abreast g c c') (hlevel : g.Level n c)
    (hnext : ∀ a c₁ c₁', Abreast g c₁ c₁' → g.Level k c₁ → FailsOn g (next a c₁)) :
    FailsOn g ((reader >>= next) c) := by
  have hagree := hreader h hlevel
  intro e c₂ herror
  simp only [Bind.bind, EStateM.bind] at herror
  generalize reader c' = second at hagree
  cases hread : reader c with
  | ok a c₁ =>
      rw [hread] at herror hagree
      cases hagree with
      | ok _ h₁ hlevel₁ => exact hnext a c₁ _ h₁ hlevel₁ herror
  | error e' c₁ =>
      rw [hread] at herror hagree
      cases herror
      exact hagree.fault hlimits

end

namespace Cursor

variable {g : Ground} {n : Nat} {c c' : Cursor}

/-! ## Leaving frames -/

/-- A frame that cannot be left is refused where the cursor stands. -/
theorem pop_error {kind : FrameKind} {e : DecodeError} (h : pop kind c = .error e c') :
    e.isUnknown = false ∧ e.offset = c.position := by
  unfold pop at h
  repeat' split at h
  all_goals cases h
  all_goals exact ⟨rfl, rfl⟩

theorem pop_ok_position {kind : FrameKind} (h : pop kind c = .ok () c') :
    c'.position = c.position := by
  obtain ⟨_, outer, -, -, -, -, rfl⟩ := pop_eq_ok_iff.mp h
  rfl

theorem failsOn_pop (h : Abreast g c c') (hlevel : g.Level n c) (kind : FrameKind) :
    FailsOn g (pop kind c) := by
  intro e c₁ herror
  obtain ⟨hunknown, hoffset⟩ := pop_error herror
  exact h.fault hlevel hunknown hoffset

theorem failsOn_exitComposite (h : Abreast g c c') (hlevel : g.Level n c) :
    FailsOn g (exitComposite c) := by
  intro e c₁ herror
  simp only [exitComposite, exitList, finishDescribed, Bind.bind, EStateM.bind] at herror
  cases hlist : pop .list c with
  | ok _ c₂ =>
      rw [hlist] at herror
      obtain ⟨hunknown, hoffset⟩ := pop_error herror
      exact h.fault hlevel hunknown (hoffset.trans (pop_ok_position hlist))
  | error e' c₂ =>
      rw [hlist] at herror
      cases herror
      exact failsOn_pop h hlevel .list hlist

/-! ## Framing -/

theorem failsOn_enterEnvelope (hlimits : g.limits = g.limits') (h : Abreast g c c')
    (hlevel : g.Level n c) : FailsOn g (enterEnvelope c) := by
  refine inStep_peekDescriptor.failsOn_bind hlimits h hlevel fun found c₁ c₁' h₁ hlevel₁ => ?_
  by_cases hfound : found = some envelopeDescriptor
  · rw [if_pos hfound]
    refine inStep_enterComposite.failsOn_bind hlimits h₁ hlevel₁ fun _ c₂ c₂' h₂ hlevel₂ => ?_
    change FailsOn g ((if c₂.remaining = 0 then mismatch .emptyEnvelope c₂.position
      else pure true : Decoding Bool) c₂)
    split
    · exact .error (h₂.fault hlevel₂ rfl rfl)
    · exact .ok
  · rw [if_neg hfound]
    exact .ok

theorem failsOn_exitEnvelope (hlimits : g.limits = g.limits') (hsizes : g.size' = g.size)
    (h : Abreast g c c') (hlevel : g.Level n c) : FailsOn g (exitEnvelope c) :=
  (inStep_skipRemaining hsizes).failsOn_bind hlimits h hlevel fun _ _ _ h₁ hlevel₁ =>
    failsOn_exitComposite h₁ hlevel₁

/-- Inside a frame no preamble is found, so it is missed or refused where the cursor stands. -/
theorem failsOn_readPreamble (hc : c.Coherent) (framing : Framing) :
    FailsOn c.reach (readPreamble framing c) := by
  by_cases hframes : c.frames = []
  · exact (inStep_readPreamble framing (whole_reach hframes) (abreast_reach hc)
      level_reach).failsOn rfl
  · have hstrip : strip streamMagic c = .ok false c := by
      rw [strip, List.isEmpty_eq_false_iff.mpr hframes]
      rfl
    have hfault : ∀ fault, c.reach.Fault (.invalidPreamble fault c.position) := fun fault =>
      (abreast_reach hc).fault level_reach rfl rfl
    change FailsOn c.reach ((strip streamMagic >>= _) c)
    simp only [Bind.bind, EStateM.bind, hstrip, Bool.false_eq_true, if_false]
    split
    · exact .error (hfault _)
    · split
      · exact .error (hfault _)
      · exact .ok

end Cursor

/-! ## Decoding -/

/-- A registry is alike with itself where all errors on the ground may arise. -/
theorem Registry.Declared.alike_self {registry : Registry} (hregistry : registry.Declared)
    {g : Ground} (hfault : ∀ e : DecodeError, g.Covers e.offset → g.Fault e) :
    Alike g 0 registry registry where
  entries_eq := rfl
  typed := hregistry.isTyped_of_resolve
  action_eq := fun _ _ => rfl
  fault_of_reject := fun _ _ h hlevel _ => hfault _ (h.covers_position hlevel)

namespace Registry

open Decode

variable {registry : Registry} {c : Cursor}

theorem alike_reach (hregistry : registry.Declared) : Alike c.reach 0 registry registry :=
  hregistry.alike_self fun _ hcovers => ⟨hcovers.1, hcovers.2⟩

theorem inStep_checked {g : Ground} {n : Nat} {resolver resolver' : Resolver} {d : Descriptor}
    (hresolver : InStep g n n (resolver d) (resolver' d)) :
    InStep g n n (checked resolver d) (checked resolver' d) := by
  have hrefuse : ∀ actual, InStep g n n
      (do throw (.unexpectedDescriptor d.text actual (← asks Cursor.position)) : Decoding Value)
      (do throw (.unexpectedDescriptor d.text actual (← asks Cursor.position))) := by
    intro actual c c' h hlevel
    refine .asks ?_
    rw [h.position_eq]
    exact .error _ (h.fault hlevel rfl rfl) h
  refine inStep_peekDescriptor.bind fun found => ?_
  cases found with
  | none => exact hrefuse _
  | some found =>
      dsimp only
      split
      · exact hresolver
      · exact hrefuse _

/-- Whatever step is taken, its errors lie between the cursor and the innermost declared end. -/
theorem failsOn_runStep (hregistry : registry.Declared) (hc : c.Coherent) (s : Step) :
    FailsOn c.reach (registry.runStep s c) := by
  have h : Abreast c.reach c c := abreast_reach hc
  have halike : Alike c.reach 0 registry registry := alike_reach hregistry
  have hinStep : ∀ {α : Type} {m : Nat} {reader : Decoding α},
      InStep c.reach c.depth m reader reader → FailsOn c.reach (reader c) :=
    fun hreader => (hreader h level_reach).failsOn rfl
  have htarget : ∀ n t, InStep c.reach n n (registry.decodeTarget t) (registry.decodeTarget t) :=
    fun n t => inStep_decodeTarget halike (Nat.zero_le n) t
  cases s with
  | read p => exact hinStep (inStep_readScalar p).map
  | beginDescribed => exact hinStep inStep_beginDescribed.map
  | beginExpecting symbol => exact hinStep (inStep_expectSymbol symbol).map
  | expectSymbol symbol => exact hinStep (inStep_expectSymbol symbol).map
  | finishDescribed => exact (failsOn_pop h level_reach .described).map
  | enterComposite => exact hinStep inStep_enterComposite.map
  | exitComposite => exact (failsOn_exitComposite h level_reach).map
  | enterList => exact hinStep inStep_enterList.map
  | exitList => exact (failsOn_pop h level_reach .list).map
  | enterMap => exact hinStep inStep_enterMap.map
  | exitMap => exact (failsOn_pop h level_reach .map).map
  | skip => exact hinStep (inStep_skip.bind fun _ => .pure _)
  | capture => exact hinStep inStep_capture.map
  | peekByte => exact .ok
  | peekFormat => exact .ok
  | atNull => exact .ok
  | atRootSlot => exact .ok
  | peekDescriptor => exact hinStep inStep_peekDescriptor.map
  | strip expected =>
      refine FailsOn.map ?_
      unfold strip
      split
      · exact .ok
      · exact .ok
  | rawByte what => exact hinStep ((inStep_rawByte what).bind fun _ => .pure _)
  | unreadBytes => exact .ok
  | markRoot => exact .ok
  | limits => exact .ok
  | readPreamble => exact (failsOn_readPreamble hc _).map
  | enterEnvelope => exact (failsOn_enterEnvelope rfl h level_reach).map
  | exitEnvelope => exact (failsOn_exitEnvelope rfl rfl h level_reach).map
  | decode t => exact hinStep (htarget _ t).map
  | decodeList t => exact hinStep ((inStep_listOf (htarget _ t)).bind fun _ => .pure _)
  | decodeNullable t => exact hinStep (inStep_nullable (htarget _ t)).map
  | decodeAs d => exact hinStep (inStep_checked (inStep_dispatch halike _ (Nat.zero_le _) d)).map

/-! ## Complete streams -/

theorem decodeRoot_offset_le (hregistry : registry.Declared) (t : Target) {bytes : Bytes}
    {e : DecodeError} (h : registry.decodeRoot t bytes = .error e) : e.offset ≤ bytes.length := by
  have hstart := start_coherent bytes registry.settings.limits
  have halike : ∀ root,
      Alike ((Cursor.start bytes registry.settings.limits).reach.withRoot root) 0 registry
        registry := by
    intro root
    refine hregistry.alike_self fun e hcovers => ?_
    exact (⟨hcovers.1, hcovers.2⟩ : e.PointsInto (Cursor.start bytes registry.settings.limits))
  obtain ⟨root, hagree⟩ : AgreeForRoot (Cursor.start bytes registry.settings.limits).reach 0
      (registry.readStream (registry.decodeTarget t) bytes)
      (registry.readStream (registry.decodeTarget t) bytes) :=
    agree_rootValue _ (whole_reach rfl) (abreast_reach hstart) level_reach fun root m =>
      inStep_decodeTarget (halike root) (Nat.zero_le m) t
  unfold decodeRoot at h
  generalize registry.readStream _ bytes = stream at h hagree
  cases stream with
  | ok value left => cases h
  | error e' left =>
      cases h
      have hpoints : e.PointsInto (Cursor.start bytes registry.settings.limits) := hagree.fault rfl
      exact hpoints.le_bound

end Registry

theorem Outline.ofBytes_offset_le {bytes : Bytes} {e : DecodeError}
    (h : ofBytes bytes = .error e) : e.offset ≤ bytes.length := by
  have hfails := (inStep_stream rfl (whole_reach rfl)
    (abreast_reach (start_coherent bytes Limits.standard)) level_reach).failsOn rfl
  unfold ofBytes at h
  generalize stream (Cursor.start bytes Limits.standard) = result at h hfails
  cases result with
  | ok outline left => cases h
  | error e' left =>
      cases h
      exact (hfails rfl).le_bound

namespace Registry

variable {registry : Registry}

/-- Where the errors of an operation and of whole streams are. -/
structure ErrorsPointInto (registry : Registry) : Prop where
  /-- An operation at a cursor fails at a place that is not before the cursor, not behind the end
  of any frame that is open, and not behind the input. -/
  step : ∀ {bytes : Bytes} {limits : Limits} {c c' : Cursor} {e : DecodeError},
    Reachable bytes limits c → ∀ s : Step, registry.runStep s c = .error e c' →
      c.position ≤ e.offset ∧ (∀ frameEnd, innermostEnd? c.frames = some frameEnd →
        e.offset ≤ frameEnd) ∧ e.offset ≤ bytes.length
  /-- A complete stream is refused at a place in it, or at its end. -/
  decodeRoot : ∀ (t : Target) (bytes : Bytes) {e : DecodeError},
    registry.decodeRoot t bytes = .error e → e.offset ≤ bytes.length
  /-- So it is if it is only outlined. -/
  outline : ∀ (bytes : Bytes) {e : DecodeError},
    Outline.ofBytes bytes = .error e → e.offset ≤ bytes.length

/-- **Every error points into the value that is being read.** -/
theorem errors_point_into (hregistry : registry.Declared) : registry.ErrorsPointInto where
  step := fun {bytes limits c c' e} h s herror => by
    have hpoints : e.PointsInto c := failsOn_runStep hregistry h.coherent s herror
    refine ⟨hpoints.position_le, fun frameEnd hend => ?_, ?_⟩
    · have hbound := hpoints.le_bound
      rwa [bound, hend] at hbound
    · exact h.size_eq ▸ Nat.le_trans hpoints.le_bound h.coherent.bound_le_size
  decodeRoot := fun t _ => decodeRoot_offset_le hregistry t
  outline := fun _ => Outline.ofBytes_offset_le

/-- A list of two bytes with a boolean that has no payload, followed by a byte of another value:
the boolean is refused at the end of the list, in front of that byte. -/
theorem cut_boolean_points_into :
    let c := after (numberedDurations.runStep .enterList)
      (Cursor.start [0xc0, 0x02, 0x01, 0x56, 0x01] ⟨2, 4⟩)
    let e := DecodeError.mismatch (.truncated "boolean" 1 0) 4
    (∃ c', numberedDurations.runStep (.read .boolean) c = .error e c') ∧
      c.position = 3 ∧ innermostEnd? c.frames = some 4 ∧ c.position ≤ e.offset ∧
      e.offset ≤ 4 ∧ e.offset ≤ 5 := by
  intro c e
  have hpoints : numberedDurations.ErrorsPointInto := errors_point_into numberedDurations_declared
  have hread : numberedDurations.runStep (.read .boolean) c =
      .error e (after (numberedDurations.runStep (.read .boolean)) c) := by
    rfl
  obtain ⟨hposition, hend, hlength⟩ := hpoints.step (.step _ _ .start) (.read .boolean) hread
  exact ⟨⟨_, hread⟩, rfl, rfl, hposition, hend 4 rfl, hlength⟩

end Registry

end AmqpEnvelope
