import AmqpEnvelope.Proofs.Decode.Reachable
import AmqpEnvelope.Proofs.Grammar.Slot

/-!
# Relocation

The value of an encoding does not depend on where it stands.  Between two cursors the
offsets, the bounds, the depth and the frames around may all differ; if a value is
decoded at one of them, it is decoded at the other one as well, wherever the same bytes
stand and may be read.

Two things around a value do matter and are held fixed.  There may not be less room for
nesting at the second cursor than at the first, and it has to agree with the first on
whether the slot is the root, since the settings may treat the root differently.
-/

namespace AmqpEnvelope

open Cursor

/-- For reading `n` bytes, one place may stand in for another, which may be in another
input: the same bytes stand there and end before the bound, an element may be claimed,
there is no less room, and both or neither are the root slot. -/
structure StandsIn (bytes₁ bytes₂ : Bytes) (c₁ c₂ : Cursor) (n : Nat) : Prop where
  same_bytes : (bytes₂.drop c₂.position).take n = (bytes₁.drop c₁.position).take n
  fits : c₂.position + n ≤ c₂.bound
  spare : ∀ frame outer, c₂.frames = frame :: outer → frame.consumed < frame.count
  depth_le : c₂.depth ≤ c₁.depth
  atRootSlot_eq : c₂.atRootSlot = c₁.atRootSlot

section

variable {bytes₁ bytes₂ : Bytes} {limits : Limits} {c₁ c₂ : Cursor}

/-- No less room is left at a cursor that is no deeper. -/
private theorem allowance_le (h₁ : Reachable bytes₁ limits c₁) (h₂ : Reachable bytes₂ limits c₂)
    (hdepth : c₂.depth ≤ c₁.depth) : c₁.allowance ≤ c₂.allowance := by
  constructor
  · simp only [allowance, h₁.limits_eq, h₂.limits_eq]
    omega
  · simp only [allowance, h₁.limits_eq, h₂.limits_eq]
    exact Nat.le_refl _

private theorem StandsIn.offers {bs : Bytes} (h : StandsIn bytes₁ bytes₂ c₁ c₂ bs.length)
    (h₁ : Reachable bytes₁ limits c₁) (h₂ : Reachable bytes₂ limits c₂)
    (hoffers : c₁.Offers 1 bs) : c₂.Offers 1 bs := by
  have hbytes : c₂.unread.take bs.length = bs := by
    rw [h₂.unread_eq, h.same_bytes, ← h₁.unread_eq]
    exact hoffers.take_eq
  refine ⟨?_, ?_, h.spare⟩
  · have hfits := h.fits
    unfold available
    omega
  · rw [← hbytes]
    exact List.take_prefix _ _

end

namespace Registry

/-- **The value of an encoding does not depend on where it stands.**  What a cursor decodes
from `n` bytes, every cursor that stands in for it decodes from the same bytes, and it
ends behind them, with one element of the innermost frame claimed and every other frame as
it was. -/
theorem decodeTarget_relocates {registry : Registry} (hregistry : registry.Declared)
    (t : Target) {bytes₁ bytes₂ : Bytes} {limits : Limits} {c₁ c₂ after₁ : Cursor}
    {value : t.Carrier} {n : Nat} (h₁ : Reachable bytes₁ limits c₁)
    (h₂ : Reachable bytes₂ limits c₂) (hstands : StandsIn bytes₁ bytes₂ c₁ c₂ n)
    (hdecode : registry.decodeTarget t c₁ = .ok value after₁)
    (hconsumed : after₁.position = c₁.position + n) :
    ∃ after₂, registry.decodeTarget t c₂ = .ok value after₂ ∧
      after₂.position = c₂.position + n ∧ after₂.frames = claimAll 1 c₂.frames ∧
        after₂.size = c₂.size ∧ after₂.limits = c₂.limits ∧ after₂.root = c₂.root := by
  have hle := allowance_le h₁ h₂ hstands.depth_le
  -- Enough levels for both cursors, so that one grammar is read at both.
  have hlevels₂ : c₂.allowance.maxDepth < c₂.allowance.maxDepth + 1 := Nat.lt_succ_self _
  have hlevels₁ : c₁.allowance.maxDepth < c₂.allowance.maxDepth + 1 := Nat.lt_succ_of_le hle.1
  obtain ⟨_, bs, hvalue, hpasses⟩ :=
    (readsAt_target hregistry h₁.coherent hlevels₁ t).sound hdecode
  obtain ⟨rfl, -⟩ := Spans.target registry _ _ t hvalue
  obtain rfl : bs.length = n := by
    rw [hpasses.2, past_position] at hconsumed
    exact Nat.add_left_cancel hconsumed
  rw [← hstands.atRootSlot_eq] at hvalue
  obtain ⟨after₂, hdecode₂, hpasses₂⟩ :=
    (readsAt_target hregistry h₂.coherent hlevels₂ t).complete hle hvalue
      (hstands.offers h₁ h₂ hpasses.1)
  refine ⟨after₂, hdecode₂, ?_⟩
  rw [hpasses₂.2]
  exact ⟨rfl, rfl, rfl, rfl, rfl⟩

/-- The duration as the element of a list. -/
private def inList : Cursor :=
  after (numberedDurations.runStep .enterList)
    (Cursor.start ([0xc0, 0x0a, 0x01] ++ nineSeconds) ⟨4, 10⟩)

/-- The duration at the start of an input, with a byte behind it. -/
private def atStart : Cursor := Cursor.start (nineSeconds ++ [0x40]) ⟨4, 10⟩

theorem duration_relocates_out_of_list :
    inList.position = 3 ∧ inList.depth = 1 ∧ ∃ after₂,
      numberedDurations.decodeTarget (.kind .duration) atStart = .ok (.duration ⟨9, 0⟩) after₂ ∧
        after₂.position = atStart.position + 9 ∧ after₂.frames = claimAll 1 atStart.frames ∧
          after₂.size = atStart.size ∧ after₂.limits = atStart.limits ∧
            after₂.root = atStart.root := by
  have hdecode : numberedDurations.decodeTarget (.kind .duration) inList = .ok (.duration ⟨9, 0⟩)
      ⟨[], 12, 12, [⟨.list, 0, some 12, 1, 1⟩], ⟨4, 10⟩, none, [Kind.duration.typeName]⟩ := by
    rfl
  have hstands : StandsIn ([0xc0, 0x0a, 0x01] ++ nineSeconds) (nineSeconds ++ [0x40])
      inList atStart 9 :=
    ⟨by decide, by decide, nofun, by decide, by decide⟩
  exact ⟨by decide, by decide, decodeTarget_relocates numberedDurations_declared
    (.kind .duration) (.step numberedDurations .enterList .start) .start hstands hdecode
    (by decide)⟩

end Registry

end AmqpEnvelope
