import AmqpEnvelope.Outline
import AmqpEnvelope.Proofs.Lockstep.Stream

/-!
# Outlines in step

The outline of a stream is read with the accesses of the cursor that are in step anyway, so two
walks that read outlines over inputs that are the same to their end go in step, under the same
limits: the room for nesting is taken from those.
-/

namespace AmqpEnvelope.Outline

open Cursor

variable {g : Ground} {n : Nat}

theorem inStep_tooDeep : InStep g n n tooDeep tooDeep := by
  intro c c' h hlevel
  refine .get ?_
  by_cases hlimits : g.limits = g.limits'
  · rw [h.position_eq, h.depth_eq, h.limits_same hlimits]
    exact InStep.limitExceeded (h.covers_position hlevel) h hlevel
  · exact .cut _ rfl hlimits

/-- The parts of a value stand one level deeper than the value. -/
theorem inStep_nodeWith {child child' : Decoding Node}
    (hchild : InStep g (n + 1) (n + 1) child child') :
    InStep g n n (nodeWith child) (nodeWith child') := by
  intro c c' h hlevel
  have hn := hlevel.around_length_le
  refine .asks (.asks ?_)
  rw [h.position_eq, h.peekFormat?_eq hlevel]
  refine (?_ : InStep g n n _ _) h hlevel
  cases c.peekFormat? with
  | none => exact inStep_skip.bind fun _ => .pure _
  | some format =>
      dsimp only
      split
      · exact (inStep_readScalar _).bind fun _ => .pure _
      · exact inStep_beginDescribed.bind fun _ => hchild.bind fun _ =>
          (inStep_pop .described hn).bind fun _ => .pure _
      · exact inStep_enterList.bind fun count => (inStep_collect hchild count []).bind fun _ =>
          (inStep_pop .list hn).bind fun _ => .pure _
      · exact inStep_enterList.bind fun count => (inStep_collect hchild count []).bind fun _ =>
          (inStep_pop .list hn).bind fun _ => .pure _
      · exact inStep_enterList.bind fun count => (inStep_collect hchild count []).bind fun _ =>
          (inStep_pop .list hn).bind fun _ => .pure _
      · exact inStep_enterMap.bind fun entries =>
          (inStep_collect hchild (entries * 2) []).bind fun _ =>
            (inStep_pop .map hn).bind fun _ => .pure _
      · exact inStep_enterMap.bind fun entries =>
          (inStep_collect hchild (entries * 2) []).bind fun _ =>
            (inStep_pop .map hn).bind fun _ => .pure _
      · exact inStep_capture.bind fun _ => .pure _

theorem inStep_node (room : Nat) : InStep g n n (node room) (node room) := by
  induction room generalizing n with
  | zero => exact inStep_nodeWith inStep_tooDeep
  | succ room ih => exact inStep_nodeWith ih

theorem inStep_value (hlimits : g.limits = g.limits') : InStep g n n value value := by
  intro c c' h hlevel
  refine .get ?_
  rw [h.limits_same hlimits, h.depth_eq]
  exact inStep_node _ h hlevel

theorem inStep_valuesUpTo (hlimits : g.limits = g.limits') (hsizes : g.size' = g.size)
    (steps : Nat) (done : List Node) :
    InStep g n n (valuesUpTo steps done) (valuesUpTo steps done) := by
  induction steps generalizing done with
  | zero => exact .pure _
  | succ steps ih =>
      intro c c' h hlevel
      refine .asks ?_
      rw [h.atEnd_eq hsizes]
      split
      · exact .ok _ h hlevel
      · exact (inStep_value hlimits).bind (fun node => ih (node :: done)) h hlevel

theorem inStep_stream (hlimits : g.limits = g.limits') (hwhole : g.Whole) :
    InStep g n n stream stream := by
  have hrest : ∀ sectionId : Option UInt8, InStep g n n
      (do let c ← get; return ⟨sectionId, ← valuesUpTo (c.size - c.position) []⟩ : Decoding Outline)
      (do let c ← get; return ⟨sectionId, ← valuesUpTo (c.size - c.position) []⟩) := by
    intro sectionId c c' h hlevel
    refine .get ?_
    rw [h.position_eq, h.sizes_eq hwhole.1]
    exact (inStep_valuesUpTo hlimits hwhole.1 _ []).bind (fun _ => .pure _) h hlevel
  refine (inStep_strip hwhole _).bind fun found => ?_
  split
  · exact (inStep_rawByte _).map.bind hrest
  · exact hrest none

end AmqpEnvelope.Outline
