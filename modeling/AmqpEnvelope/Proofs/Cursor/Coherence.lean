import AmqpEnvelope.Proofs.Cursor.Outcome
import Mathlib.Logic.Relation

/-!
# Moves of a cursor

Whatever is done to a cursor is done by a few moves: bytes are passed, an element is
claimed, a frame is opened or closed, and two notes are taken, of the root slot and of
the types that were begun.  `Cursor.Move` lists them, each with what has been checked
before it is made.

`Cursor.Coherent` is the bookkeeping that the moves keep in order.  The declared ends of
the open frames are nested, none of them lies past the end of the input, and the cursor
stands before the innermost of them; no frame has claimed more than it declares; no more
frames are open than may be, and none declares more elements than it may.

* `Move.coherent`: every move keeps a coherent cursor coherent.
* `Move.position_le`: no move goes back.
-/

namespace AmqpEnvelope

namespace Cursor

/-! ## Nested ends -/

/-- A place lies before the innermost declared end, each declared end before that of
every frame around it, and all of them within an input of the given size.  The frames
are listed innermost first. -/
def EndsNest (size : Nat) : (low : Nat) → List Frame → Prop
  | low, [] => low ≤ size
  | low, frame :: outer =>
      match frame.endsAt with
      | some e => low ≤ e ∧ EndsNest size e outer
      | none => EndsNest size low outer

namespace EndsNest

variable {size low high e : Nat} {frame : Frame} {outer frames : List Frame}

theorem cons_some (hend : frame.endsAt = some e) :
    EndsNest size low (frame :: outer) ↔ low ≤ e ∧ EndsNest size e outer := by
  simp only [EndsNest, hend]

theorem cons_none (hend : frame.endsAt = none) :
    EndsNest size low (frame :: outer) ↔ EndsNest size low outer := by
  simp only [EndsNest, hend]

theorem low_le (h : EndsNest size high frames) (hle : low ≤ high) :
    EndsNest size low frames := by
  induction frames generalizing high with
  | nil => exact Nat.le_trans hle h
  | cons frame outer ih =>
      cases hend : frame.endsAt with
      | none =>
          rw [cons_none hend] at h ⊢
          exact ih h hle
      | some e =>
          rw [cons_some hend] at h ⊢
          exact ⟨Nat.le_trans hle h.1, h.2⟩

theorem le_innermost (h : EndsNest size low frames) :
    low ≤ (innermostEnd? frames).getD size := by
  induction frames with
  | nil => exact h
  | cons frame outer ih =>
      cases hend : frame.endsAt with
      | none =>
          rw [cons_none hend] at h
          simpa only [innermostEnd?, hend] using ih h
      | some e =>
          rw [cons_some hend] at h
          simpa only [innermostEnd?, hend, Option.getD_some] using h.1

theorem low_le_size (h : EndsNest size low frames) : low ≤ size := by
  induction frames generalizing low with
  | nil => exact h
  | cons frame outer ih =>
      cases hend : frame.endsAt with
      | none => exact ih ((cons_none hend).mp h)
      | some e =>
          obtain ⟨hlow, houter⟩ := (cons_some hend).mp h
          exact Nat.le_trans hlow (ih houter)

theorem innermost_le_size (h : EndsNest size low frames) :
    (innermostEnd? frames).getD size ≤ size := by
  induction frames with
  | nil => exact Nat.le_refl size
  | cons frame outer ih =>
      cases hend : frame.endsAt with
      | none =>
          simpa only [innermostEnd?, hend] using ih ((cons_none hend).mp h)
      | some e =>
          simpa only [innermostEnd?, hend, Option.getD_some] using
            low_le_size ((cons_some hend).mp h).2

/-- The place may be moved up to the innermost declared end. -/
theorem raise (h : EndsNest size low frames)
    (hle : high ≤ (innermostEnd? frames).getD size) : EndsNest size high frames := by
  induction frames with
  | nil => exact hle
  | cons frame outer ih =>
      cases hend : frame.endsAt with
      | none =>
          rw [cons_none hend] at h ⊢
          simp only [innermostEnd?, hend] at hle
          exact ih h hle
      | some e =>
          rw [cons_some hend] at h ⊢
          simp only [innermostEnd?, hend, Option.getD_some] at hle
          exact ⟨hle, h.2⟩

/-- The ends of nested frames ascend from the inside out, from the place on and up to
the size of the input. -/
theorem pairwise_ends (h : EndsNest size low frames) :
    (frames.filterMap Frame.endsAt).Pairwise (· ≤ ·) ∧
      ∀ e ∈ frames.filterMap Frame.endsAt, low ≤ e ∧ e ≤ size := by
  induction frames generalizing low with
  | nil => simp
  | cons frame outer ih =>
      cases hend : frame.endsAt with
      | none =>
          rw [List.filterMap_cons_none hend]
          exact ih ((cons_none hend).mp h)
      | some e =>
          obtain ⟨hlow, houter⟩ := (cons_some hend).mp h
          obtain ⟨hpairwise, hbetween⟩ := ih houter
          rw [List.filterMap_cons_some hend]
          refine ⟨List.pairwise_cons.mpr ⟨fun e' he' => (hbetween e' he').1, hpairwise⟩, ?_⟩
          intro e' he'
          rcases List.mem_cons.mp he' with rfl | he'
          · exact ⟨hlow, low_le_size houter⟩
          · exact ⟨Nat.le_trans hlow (hbetween e' he').1, (hbetween e' he').2⟩

end EndsNest

/-! ## Coherent cursors -/

/-- The bookkeeping of a cursor is in order. -/
structure Coherent (c : Cursor) : Prop where
  /-- The bytes before and behind the cursor are the input. -/
  position_add_length : c.position + c.unread.length = c.size
  /-- The declared ends are nested around the cursor. -/
  nested : EndsNest c.size c.position c.frames
  /-- No frame has claimed more than it declares. -/
  consumed_le : ∀ frame ∈ c.frames, frame.consumed ≤ frame.count
  /-- No list or map declares more than a collection may hold. -/
  count_le : ∀ frame ∈ c.frames, frame.kind ≠ .described →
    frame.count ≤ c.limits.maxCollectionLength
  /-- No more frames are open than may be. -/
  depth_le : c.depth ≤ c.limits.maxDepth
  /-- The marked root does not lie ahead. -/
  root_le : ∀ depth place, c.root = some (depth, place) → place ≤ c.position

theorem start_coherent (bytes : Bytes) (limits : Limits) : (start bytes limits).Coherent where
  position_add_length := by simp [start]
  nested := Nat.zero_le _
  consumed_le := by simp [start]
  count_le := by simp [start]
  depth_le := Nat.zero_le _
  root_le := by simp [start]

namespace Coherent

variable {c : Cursor}

theorem position_le_bound (h : c.Coherent) : c.position ≤ c.bound := h.nested.le_innermost

theorem bound_le_size (h : c.Coherent) : c.bound ≤ c.size := h.nested.innermost_le_size

/-- What may be read is there to be read. -/
theorem available_le_length (h : c.Coherent) : c.available ≤ c.unread.length := by
  have hlength := h.position_add_length
  have hsize := h.bound_le_size
  unfold available
  omega

theorem innermost_consumed_le (h : c.Coherent) :
    ∀ frame outer, c.frames = frame :: outer → frame.consumed ≤ frame.count := by
  intro frame outer hframes
  exact h.consumed_le frame (by rw [hframes]; exact List.mem_cons_self)

theorem position_add_available (h : c.Coherent) : c.position + c.available = c.bound := by
  have hbound := h.position_le_bound
  unfold available
  omega

end Coherent

/-! ## Moves -/

/-- One move of a cursor, with what has been checked before it. -/
inductive Move (c : Cursor) : Cursor → Prop
  /-- Bytes before the bound are passed. -/
  | pass (n : Nat) (hfits : n ≤ c.available) : Move c (c.advance n)
  /-- Outside all frames, bytes of the input are passed. -/
  | strip (n : Nat) (hframes : c.frames = []) (hfits : n ≤ c.unread.length) :
      Move c (c.advance n)
  /-- The innermost frame has an element left, and that is claimed. -/
  | claim (frame : Frame) (outer : List Frame) (hframes : c.frames = frame :: outer)
      (hspare : frame.consumed < frame.count) : Move c (c.within (frame.claimed :: outer))
  /-- A described value is opened: it has one element and no end of its own. -/
  | describe (start : Nat) (hdepth : c.depth < c.limits.maxDepth) :
      Move c (c.within (⟨.described, start, none, 1, 0⟩ :: c.frames))
  /-- A list or map is opened, whose end lies before the bound. -/
  | contain (kind : FrameKind) (start declaredEnd count : Nat)
      (hdepth : c.depth < c.limits.maxDepth) (hstart : c.position ≤ declaredEnd)
      (hend : declaredEnd ≤ c.bound) (hcount : count ≤ c.limits.maxCollectionLength) :
      Move c (c.within (⟨kind, start, some declaredEnd, count, 0⟩ :: c.frames))
  /-- The innermost frame is closed behind its last element, and at its end. -/
  | close (frame : Frame) (outer : List Frame) (hframes : c.frames = frame :: outer)
      (hcount : frame.consumed = frame.count)
      (hend : ∀ e, frame.endsAt = some e → c.position = e) : Move c (c.within outer)
  /-- The root slot is marked. -/
  | mark : Move c { c with root := some (c.depth, c.position) }
  /-- A type is noted whose fields are about to be read. -/
  | begin (name : String) : Move c { c with entered := name :: c.entered }

namespace Move

variable {c c' : Cursor}

/-- No move goes back. -/
theorem position_le (h : Move c c') : c.position ≤ c'.position := by
  cases h with
  | pass n => exact Nat.le_add_right _ _
  | strip n => exact Nat.le_add_right _ _
  | _ => exact Nat.le_refl _

theorem limits_eq (h : Move c c') : c'.limits = c.limits := by
  cases h <;> rfl

/-- A move stays in the input: what is unread is what was unread less what was passed. -/
theorem unread_eq (h : Move c c') : c'.unread = c.unread.drop (c'.position - c.position) := by
  cases h with
  | pass n => simp
  | strip n => simp
  | _ => simp

theorem size_eq (h : Move c c') : c'.size = c.size := by
  cases h <;> rfl

private theorem coherent_advance (h : c.Coherent) {n : Nat} (hfits : c.position + n ≤ c.bound) :
    (c.advance n).Coherent where
  position_add_length := by
    have hlength := h.position_add_length
    have hsize := h.bound_le_size
    simp only [advance_position, advance_unread, List.length_drop, advance_size]
    omega
  nested := h.nested.raise hfits
  consumed_le := h.consumed_le
  count_le := h.count_le
  depth_le := h.depth_le
  root_le := fun depth place hroot =>
    Nat.le_trans (h.root_le depth place hroot) (Nat.le_add_right _ _)

private theorem coherent_claim (h : c.Coherent) {frame : Frame} {outer : List Frame}
    (hframes : c.frames = frame :: outer) (hspare : frame.consumed < frame.count) :
    (c.within (frame.claimed :: outer)).Coherent := by
  have hnested := h.nested
  have hconsumed := h.consumed_le
  have hcount := h.count_le
  have hdepth := h.depth_le
  rw [depth, hframes] at hdepth
  rw [hframes] at hnested hconsumed hcount
  refine ⟨h.position_add_length, hnested, ?_, ?_, hdepth, h.root_le⟩
  · rw [List.forall_mem_cons] at hconsumed
    exact List.forall_mem_cons.mpr ⟨hspare, hconsumed.2⟩
  · rw [List.forall_mem_cons] at hcount
    exact List.forall_mem_cons.mpr hcount

/-- A frame that is opened has claimed nothing yet, and its end is nested in those around
it. -/
private theorem coherent_open (h : c.Coherent) {kind : FrameKind} {start count : Nat}
    {endsAt : Option Nat} (hdepth : c.depth < c.limits.maxDepth)
    (hnested : EndsNest c.size c.position (⟨kind, start, endsAt, count, 0⟩ :: c.frames))
    (hcount : kind ≠ .described → count ≤ c.limits.maxCollectionLength) :
    (c.within (⟨kind, start, endsAt, count, 0⟩ :: c.frames)).Coherent where
  position_add_length := h.position_add_length
  nested := hnested
  consumed_le := List.forall_mem_cons.mpr ⟨Nat.zero_le _, h.consumed_le⟩
  count_le := List.forall_mem_cons.mpr ⟨hcount, h.count_le⟩
  depth_le := hdepth
  root_le := h.root_le

private theorem coherent_close (h : c.Coherent) {frame : Frame} {outer : List Frame}
    (hframes : c.frames = frame :: outer) : (c.within outer).Coherent := by
  have hnested := h.nested
  have hconsumed := h.consumed_le
  have hcount := h.count_le
  have hdepth := h.depth_le
  rw [depth, hframes] at hdepth
  rw [hframes] at hnested hconsumed hcount
  rw [List.forall_mem_cons] at hconsumed hcount
  refine ⟨h.position_add_length, ?_, hconsumed.2, hcount.2, Nat.le_of_succ_le hdepth, h.root_le⟩
  cases hends : frame.endsAt with
  | none => exact (EndsNest.cons_none hends).mp hnested
  | some e =>
      -- The end of the closed frame lies before the next one, and so does the cursor.
      obtain ⟨hlow, houter⟩ := (EndsNest.cons_some hends).mp hnested
      exact EndsNest.low_le houter hlow

/-- Every move keeps the bookkeeping in order. -/
theorem coherent (h : Move c c') (hc : c.Coherent) : c'.Coherent := by
  cases h with
  | pass n hfits =>
      have havailable := hc.position_add_available
      exact coherent_advance hc (by omega)
  | strip n hframes hfits =>
      -- Outside all frames the bound is the end of the input.
      have hlength := hc.position_add_length
      have hbound : c.bound = c.size := by simp [bound, hframes, innermostEnd?]
      exact coherent_advance hc (by omega)
  | claim frame outer hframes hspare => exact coherent_claim hc hframes hspare
  | describe start hdepth =>
      exact coherent_open hc hdepth hc.nested fun hkind => absurd rfl hkind
  | contain kind start declaredEnd count hdepth hstart hend hcount =>
      exact coherent_open hc hdepth ⟨hstart, hc.nested.raise hend⟩ fun _ => hcount
  | close frame outer hframes hcount hend => exact coherent_close hc hframes
  | mark =>
      refine ⟨hc.position_add_length, hc.nested, hc.consumed_le, hc.count_le, hc.depth_le, ?_⟩
      intro depth place hroot
      cases hroot
      exact Nat.le_refl _
  | begin name =>
      exact ⟨hc.position_add_length, hc.nested, hc.consumed_le, hc.count_le, hc.depth_le,
        hc.root_le⟩

end Move

/-! ## Walks -/

/-- One cursor is reached from another by moves. -/
abbrev Walk : Cursor → Cursor → Prop := Relation.ReflTransGen Move

namespace Walk

variable {c c' : Cursor}

theorem coherent (h : Walk c c') (hc : c.Coherent) : c'.Coherent := by
  induction h with
  | refl => exact hc
  | tail _ hmove ih => exact hmove.coherent ih

theorem position_le (h : Walk c c') : c.position ≤ c'.position := by
  induction h with
  | refl => exact Nat.le_refl _
  | tail _ hmove ih => exact Nat.le_trans ih hmove.position_le

theorem limits_eq (h : Walk c c') : c'.limits = c.limits := by
  induction h with
  | refl => rfl
  | tail _ hmove ih => exact hmove.limits_eq.trans ih

theorem size_eq (h : Walk c c') : c'.size = c.size := by
  induction h with
  | refl => rfl
  | tail _ hmove ih => exact hmove.size_eq.trans ih

theorem unread_eq (h : Walk c c') :
    c'.unread = c.unread.drop (c'.position - c.position) := by
  induction h with
  | refl => simp
  | tail hwalk hmove ih =>
      have hbefore := position_le hwalk
      have hafter := hmove.position_le
      rw [hmove.unread_eq, ih, List.drop_drop]
      congr 1
      omega

end Walk

end Cursor

end AmqpEnvelope
