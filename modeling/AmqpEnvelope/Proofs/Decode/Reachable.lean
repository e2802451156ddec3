import AmqpEnvelope.Proofs.Decode.Walk

/-!
# Reachable cursors

A cursor is reachable over a byte string if it is put at the start and then anything is
done to it, in any order: every step that a caller or a script may take, under any
registry, and on and on after steps that have failed.  Operations are put together from
claims of elements and takes of bytes, so the states in the midst of an operation are
reached by these two and counted in.

`Reachable.within_bounds` collects what holds of every such state: the declared ends are
nested between the cursor and the end of the input, the counts and the number of frames
keep their bounds, no step goes back, and every access to the bytes and every difference
of places is in range.
-/

namespace AmqpEnvelope

namespace Cursor

/-- What becomes of a cursor at the start of a byte string, whatever is done to it. -/
inductive Reachable (bytes : Bytes) (limits : Limits) : Cursor → Prop
  | start : Reachable bytes limits (Cursor.start bytes limits)
  /-- A step has been run, and has succeeded or failed. -/
  | step (registry : Registry) (s : Step) {c : Cursor} (h : Reachable bytes limits c) :
      Reachable bytes limits (after (registry.runStep s) c)
  /-- An element has been claimed, or should have been. -/
  | claim (what : String) {c : Cursor} (h : Reachable bytes limits c) :
      Reachable bytes limits (after (Cursor.claim what) c)
  /-- Bytes have been taken, or should have been. -/
  | take (n : Nat) (what : String) {c : Cursor} (h : Reachable bytes limits c) :
      Reachable bytes limits (after (Cursor.take n what) c)

/-- The place, the frames and the counts of a cursor keep their bounds. -/
structure WithinBounds (bytes : Bytes) (limits : Limits) (c : Cursor) : Prop where
  /-- The cursor stands before the innermost declared end. -/
  position_le_innermost : ∀ e, innermostEnd? c.frames = some e → c.position ≤ e
  /-- Each declared end lies before those of the frames around it. -/
  ends_nested : (c.frames.filterMap Frame.endsAt).Pairwise (· ≤ ·)
  /-- All of them lie within the input, and so does the cursor. -/
  ends_le_length : ∀ e ∈ c.frames.filterMap Frame.endsAt, e ≤ bytes.length
  position_le_length : c.position ≤ bytes.length
  /-- No frame has claimed more than it declares. -/
  consumed_le_count : ∀ frame ∈ c.frames, frame.consumed ≤ frame.count
  /-- No more frames are open than may be. -/
  depth_le_maxDepth : c.frames.length ≤ limits.maxDepth
  /-- No list or map has more elements than a collection may have. -/
  count_le_maxCollectionLength : ∀ frame ∈ c.frames, frame.kind ≠ .described →
    frame.count ≤ limits.maxCollectionLength

/-- Every access to the input is in range, and every difference is one of numbers in the
right order. -/
structure AccessesInRange (bytes : Bytes) (c : Cursor) : Prop where
  /-- What is unread is the input from the cursor on. -/
  unread_eq : c.unread = bytes.drop c.position
  /-- Bytes that are taken are a slice of the input. -/
  take_in_range : ∀ {n : Nat} {what : String} {taken : Bytes} {c' : Cursor},
    Cursor.take n what c = .ok taken c' →
      c.position + n ≤ bytes.length ∧ taken = (bytes.drop c.position).take n ∧
        taken.length = n
  /-- Bytes that are captured are the slice that the cursor has passed. -/
  capture_in_range : ∀ {captured : Bytes} {c' : Cursor}, capture c = .ok captured c' →
    c.position ≤ c'.position ∧ c'.position ≤ bytes.length ∧
      captured = (bytes.drop c.position).take (c'.position - c.position) ∧
        captured.length = c'.position - c.position
  /-- The elements left are those declared less those claimed. -/
  remaining_add_consumed : ∀ {frame : Frame} {outer : List Frame},
    c.frames = frame :: outer → c.remaining + frame.consumed = frame.count
  /-- Behind the size and the count of a container that fits, its end still lies ahead
  and in the input. -/
  header_in_range : ∀ {width size count : Nat} {what : String} {c₁ c₂ : Cursor},
    number width what c = .ok size c₁ → width ≤ size → size ≤ c₁.available →
      number width what c₁ = .ok count c₂ →
        c₂.position ≤ c₁.position + size ∧ c₁.position + size ≤ bytes.length

namespace Reachable

variable {bytes : Bytes} {limits : Limits} {c : Cursor}

/-- A reachable cursor is reached by moves. -/
theorem walk (h : Reachable bytes limits c) : Walk (Cursor.start bytes limits) c := by
  induction h with
  | start => exact .refl
  | step registry s _ ih => exact ih.trans (registry.walks_runStep s _)
  | claim what _ ih => exact ih.trans (walks_claim what _)
  | take n what _ ih => exact ih.trans (walks_take n what _)

theorem coherent (h : Reachable bytes limits c) : c.Coherent :=
  h.walk.coherent (start_coherent bytes limits)

theorem limits_eq (h : Reachable bytes limits c) : c.limits = limits := h.walk.limits_eq

theorem size_eq (h : Reachable bytes limits c) : c.size = bytes.length := h.walk.size_eq

theorem unread_eq (h : Reachable bytes limits c) : c.unread = bytes.drop c.position :=
  h.walk.unread_eq

end Reachable

/-- A list of one element, a null, and behind the null a value that the list has no element for. -/
def spareList (spare : Bytes) : Bytes := [0xc0, UInt8.ofNat (spare.length + 2), 0x01, 0x40] ++ spare

/-- The cursor in front of the spare value, where the one element has been read. -/
def inFrontOfSpare (spare : Bytes) : Cursor :=
  let registry := Registry.empty Settings.standard
  after (registry.runStep (.read .null))
    (after (registry.runStep .enterList) (Cursor.start (spareList spare) ⟨4, 10⟩))

theorem reachable_inFrontOfSpare (spare : Bytes) :
    Reachable (spareList spare) ⟨4, 10⟩ (inFrontOfSpare spare) :=
  .step _ _ (.step _ _ .start)

/-! ## Bounds and ranges -/

section

variable {bytes : Bytes} {limits : Limits} {c : Cursor}

private theorem withinBounds_of_coherent (hc : c.Coherent) (hsize : c.size = bytes.length)
    (hlimits : c.limits = limits) : WithinBounds bytes limits c := by
  subst hlimits
  obtain ⟨hpairwise, hbetween⟩ := hc.nested.pairwise_ends
  have hbound := hc.position_le_bound
  refine ⟨?_, hpairwise, ?_, ?_, hc.consumed_le, hc.depth_le, hc.count_le⟩
  · intro e he
    rw [bound, he, Option.getD_some] at hbound
    exact hbound
  · intro e he
    rw [← hsize]
    exact (hbetween e he).2
  · rw [← hsize]
    exact Nat.le_trans hbound hc.bound_le_size

private theorem accessesInRange_of_coherent (hc : c.Coherent) (hsize : c.size = bytes.length)
    (hunread : c.unread = bytes.drop c.position) : AccessesInRange bytes c := by
  have hlength := hc.available_le_length
  have htotal := hc.position_add_length
  have havailable := hc.position_add_available
  have hbound := hc.bound_le_size
  refine ⟨hunread, ?_, ?_, ?_, ?_⟩
  · intro n what taken c' h
    obtain ⟨hfits, rfl, -⟩ := take_eq_ok_iff.mp h
    refine ⟨by omega, by rw [hunread], ?_⟩
    rw [List.length_take]
    omega
  · intro captured c' h
    have hwalk := walks_capture c
    rw [after_of_ok h] at hwalk
    have hc' := hwalk.coherent hc
    have hle := hwalk.position_le
    have hend := hc'.position_add_length
    rw [hwalk.size_eq] at hend
    unfold capture at h
    cases hskip : skip c with
    | error e left => simp [hskip] at h
    | ok _ left =>
        rw [hskip] at h
        cases h
        refine ⟨hle, by omega, by rw [hunread], ?_⟩
        rw [List.length_take]
        omega
  · intro frame outer hframes
    have hconsumed := hc.innermost_consumed_le frame outer hframes
    simp only [remaining, hframes]
    omega
  · intro width size count what c₁ c₂ hfirst hcover hfits hsecond
    obtain ⟨hwidth, -, rfl⟩ := number_eq_ok_iff.mp hfirst
    obtain ⟨-, -, rfl⟩ := number_eq_ok_iff.mp hsecond
    simp only [available, advance_bound, advance_position] at hfits hwidth ⊢
    omega

end

/-- **Every reachable cursor keeps its bounds.**  No step that could come next goes back,
whatever it is and however it ends, and nothing that is read here reads outside the
input. -/
theorem Reachable.within_bounds {bytes : Bytes} {limits : Limits} {c : Cursor}
    (h : Reachable bytes limits c) :
    WithinBounds bytes limits c ∧
      (∀ (registry : Registry) (s : Step),
        c.position ≤ (after (registry.runStep s) c).position) ∧
      AccessesInRange bytes c :=
  ⟨withinBounds_of_coherent h.coherent h.size_eq h.limits_eq,
    fun registry s => (registry.walks_runStep s c).position_le,
    accessesInRange_of_coherent h.coherent h.size_eq h.unread_eq⟩

/-- A list of one element, the failed reading of a boolean in it, and a second one: the
element is claimed and its format code passed, and the bounds hold there as well. -/
theorem within_bounds_after_failed_reads :
    let registry := Registry.empty Settings.standard
    let bytes : Bytes := [0xc0, 0x02, 0x01, 0x40, 0x40]
    let failed := after (registry.runStep (.read .boolean))
      (after (registry.runStep .enterList) (Cursor.start bytes ⟨2, 4⟩))
    let c := after (registry.runStep (.read .boolean)) failed
    c.position = 4 ∧ c.frames = [⟨.list, 0, some 4, 1, 1⟩] ∧
      WithinBounds bytes ⟨2, 4⟩ c ∧
      (∀ (registry : Registry) (s : Step),
        c.position ≤ (after (registry.runStep s) c).position) ∧
      AccessesInRange bytes c :=
  ⟨by decide, by decide,
    Reachable.within_bounds (.step _ _ (.step _ _ (.step _ _ .start)))⟩

end Cursor

end AmqpEnvelope
