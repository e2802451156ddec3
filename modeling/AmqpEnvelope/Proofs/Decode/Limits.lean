import AmqpEnvelope.Proofs.Framing.Transparent
import AmqpEnvelope.Proofs.Lockstep.Stream

/-!
# Wider limits

Limits cut decoding off and do nothing else.  No error is caught on the way, and a limit is
looked at only to decide whether to go on, so a stream that is decided within some limits is
decided in the same way within wider ones (`Registry.decodeRoot_of_wider_limits`): with the
same value, or with the same error at the same place.

The walk under the wider limits is in step with the one under the narrower ones, and where the
latter is cut off, nothing is said of the former.
-/

namespace AmqpEnvelope

open Cursor

namespace Registry

variable {registry : Registry} {narrow wide : Limits}

/-- **Limits cut off, and never change a result.**  A stream that is decided without a limit
being exceeded is decided in the same way under wider limits. -/
theorem decodeRoot_of_wider_limits (hregistry : registry.Declared) (t : Target) (bytes : Bytes)
    (hle : narrow ≤ wide)
    (huncut : ∀ e, (registry.withLimits narrow).decodeRoot t bytes = .error e → e.isLimit = false) :
    (registry.withLimits wide).decodeRoot t bytes =
      (registry.withLimits narrow).decodeRoot t bytes := by
  have hstart := start_coherent bytes narrow
  have halike : ∀ root, Alike (((Cursor.start bytes narrow).ground hstart hle).withRoot root) 0
      (registry.withLimits narrow) (registry.withLimits wide) :=
    fun _ => (hregistry.withLimits narrow).alike (registry.withLimits wide) rfl rfl fun _ => trivial
  obtain ⟨root, hagree⟩ : AgreeForRoot ((Cursor.start bytes narrow).ground hstart hle) 0
      ((registry.withLimits narrow).readStream
        ((registry.withLimits narrow).decodeTarget t) bytes)
      ((registry.withLimits wide).readStream
        ((registry.withLimits wide).decodeTarget t) bytes) :=
    agree_rootValue _ whole_ground abreast_ground level_ground fun root m =>
      inStep_decodeTarget (halike root) (Nat.zero_le m) t
  unfold decodeRoot at huncut ⊢
  generalize (registry.withLimits narrow).readStream _ bytes = first at hagree huncut
  generalize (registry.withLimits wide).readStream _ bytes = second at hagree
  cases hagree with
  | ok value _ _ => rfl
  | error e _ _ => rfl
  | cut e hlimit _ =>
      -- The narrower limits did not cut this stream off.
      rw [huncut e rfl] at hlimit
      cases hlimit

/-- A duration without its second field. -/
private def halfDuration : Bytes := [0x00, 0x53, 0x07, 0xc0, 0x03, 0x01, 0x53, 0x09]

/-- The composite and its list need two levels.  With one they are cut off; with two the missing
field is found missing, and so it is with more. -/
theorem half_duration_refused_alike :
    (numberedDurations.withLimits ⟨1, 2⟩).decodeRoot (.kind .duration) halfDuration =
        .error (.limitExceeded .nestingDepth 2 1 3) ∧
      (numberedDurations.withLimits ⟨2, 2⟩).decodeRoot (.kind .duration) halfDuration =
        .error (.mismatch (.exhausted .list "uint" 1) 8) ∧
      (numberedDurations.withLimits ⟨64, 1000⟩).decodeRoot (.kind .duration) halfDuration =
        (numberedDurations.withLimits ⟨2, 2⟩).decodeRoot (.kind .duration) halfDuration := by
  have hrefused : (numberedDurations.withLimits ⟨2, 2⟩).decodeRoot (.kind .duration) halfDuration =
      .error (.mismatch (.exhausted .list "uint" 1) 8) := by
    rfl
  refine ⟨by rfl, hrefused, decodeRoot_of_wider_limits numberedDurations_declared
    (.kind .duration) halfDuration ⟨by decide, by decide⟩ fun e he => ?_⟩
  cases hrefused.symm.trans he
  rfl

end Registry

end AmqpEnvelope
