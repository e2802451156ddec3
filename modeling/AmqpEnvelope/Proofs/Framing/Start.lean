import AmqpEnvelope.Proofs.Framing.Continuation

/-!
# Where nothing is open

At a cursor without frames the input alone bounds what is read: whatever the input goes on
with is offered there, and all of it is available.  That is where streams start, with a
preamble or without.
-/

namespace AmqpEnvelope

namespace Cursor

variable {c : Cursor}

theorem available_of_no_frames (hc : c.Coherent) (hframes : c.frames = []) :
    c.available = c.unread.length := by
  have hlength := hc.position_add_length
  simp only [available, bound, hframes, innermostEnd?, Option.getD_none]
  omega

/-- What the input goes on with is offered, as any number of elements. -/
theorem Offers.of_no_frames (hc : c.Coherent) (hframes : c.frames = []) {bs : Bytes}
    (h : bs <+: c.unread) (n : Nat) : c.Offers n bs where
  fits := by
    rw [available_of_no_frames hc hframes]
    exact h.length_le
  front := h
  spare := by
    intro frame outer hcons
    rw [hframes] at hcons
    cases hcons

/-- The end is reached when nothing is unread. -/
theorem atEnd_iff (hc : c.Coherent) : c.atEnd = true ↔ c.unread = [] := by
  have hlength := hc.position_add_length
  rw [atEnd, decide_eq_true_iff, ← List.length_eq_zero_iff]
  omega

theorem Passes.unread_eq {c' : Cursor} {n : Nat} {bs : Bytes} (h : c.Passes n bs c') :
    c.unread = bs ++ c'.unread := by
  obtain ⟨rest, hrest⟩ := h.1.front
  rw [h.2, past_unread, ← hrest, List.drop_left]

theorem Passes.no_frames {c' : Cursor} {n : Nat} {bs : Bytes} (h : c.Passes n bs c')
    (hframes : c.frames = []) : c'.frames = [] := by
  rw [h.2, past_frames, hframes, claimAll_nil]

/-- The magic is stripped if the input starts with it. -/
theorem strip_magic (hframes : c.frames = []) (h : streamMagic <+: c.unread) :
    strip streamMagic c = .ok true (c.advance streamMagic.length) := by
  rw [strip, hframes, List.isPrefixOf_iff_prefix.mpr h]
  rfl

theorem strip_of_mismatch {expected : Bytes} (h : ¬ expected <+: c.unread) :
    strip expected c = .ok false c := by
  have hnot : expected.isPrefixOf c.unread = false := by
    rw [Bool.eq_false_iff]
    exact fun hfront => h (List.isPrefixOf_iff_prefix.mp hfront)
  rw [strip, hnot, Bool.and_false]
  rfl

/-- A byte is read wherever one is left. -/
theorem rawByte_eq_ok_iff (hc : c.Coherent) (hframes : c.frames = []) {what : String}
    {byte : UInt8} {c' : Cursor} :
    rawByte what c = .ok byte c' ↔ c.unread.head? = some byte ∧ c' = c.advance 1 := by
  have havailable := available_of_no_frames hc hframes
  unfold rawByte
  rw [bind_eq_ok_iff]
  constructor
  · rintro ⟨bytes, c₁, htake, hbyte⟩
    obtain ⟨hfits, rfl, rfl⟩ := take_eq_ok_iff.mp htake
    obtain ⟨rfl, rfl⟩ := pure_eq_ok_iff.mp hbyte
    rw [havailable] at hfits
    cases hunread : c.unread with
    | nil => simp [hunread] at hfits
    | cons first rest => exact ⟨rfl, rfl⟩
  · rintro ⟨hhead, rfl⟩
    cases hunread : c.unread with
    | nil => simp [hunread] at hhead
    | cons first rest =>
        rw [hunread] at hhead
        cases hhead
        refine ⟨[byte], c.advance 1, take_eq_ok_iff.mpr ⟨?_, ?_, rfl⟩, rfl⟩
        · rw [havailable, hunread]
          exact Nat.le_add_left 1 rest.length
        · rw [hunread]
          rfl

/-- The cursor behind bytes that the input starts with. -/
theorem advance_coherent (hc : c.Coherent) (hframes : c.frames = []) {bs rest : Bytes}
    (h : c.unread = bs ++ rest) : (c.advance bs.length).Coherent ∧
      (c.advance bs.length).unread = rest := by
  have hfits : bs.length ≤ c.available := by
    rw [available_of_no_frames hc hframes, h]
    exact (List.prefix_append bs rest).length_le
  refine ⟨(Move.pass _ hfits).coherent hc, ?_⟩
  rw [advance_unread, h, List.drop_left]

end Cursor

end AmqpEnvelope
