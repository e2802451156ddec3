import AmqpEnvelope.Cursor.Skip

/-!
# Outcomes of readers

A reader always leaves a cursor behind, and a sequence of readers succeeds exactly when
each of them does on the cursor that the one before it has left.  This module says so
once, and then says for each access to raw bytes, elements and frames what its success
means.  Everything that is proved about readers later on is put together from these
statements; no later proof opens the accesses again.
-/

namespace AmqpEnvelope

/-- The frame with one more element claimed. -/
def Frame.claimed (frame : Frame) : Frame := { frame with consumed := frame.consumed + 1 }

namespace Cursor

variable {α β : Type} {c c' : Cursor}

/-- The cursor that a reader leaves behind, whatever it answers. -/
def after (reader : Decoding α) (c : Cursor) : Cursor :=
  match reader c with
  | .ok _ left => left
  | .error _ left => left

theorem after_of_ok {reader : Decoding α} {value : α} (h : reader c = .ok value c') :
    after reader c = c' := by
  simp only [after, h]

/-! ## Sequences -/

theorem bind_eq_ok_iff {reader : Decoding α} {next : α → Decoding β} {value : β} :
    (reader >>= next) c = .ok value c' ↔
      ∃ a c₁, reader c = .ok a c₁ ∧ next a c₁ = .ok value c' := by
  simp only [bind, EStateM.bind]
  cases reader c with
  | ok a c₁ =>
      constructor
      · intro h
        exact ⟨a, c₁, rfl, h⟩
      · rintro ⟨a', c₁', h, hnext⟩
        cases h
        exact hnext
  | error e c₁ => simp

/-- A reader that succeeds hands over its value and the cursor. -/
theorem bind_of_ok {reader : Decoding α} {a : α} (h : reader c = .ok a c')
    (next : α → Decoding β) : (reader >>= next) c = next a c' := by
  simp only [bind, EStateM.bind, h]

/-- What follows a reader matters only where the reader succeeds. -/
theorem bind_congr_of_ok {reader reader' : Decoding α} {next next' : α → Decoding β}
    (hreader : reader c = reader' c)
    (hnext : ∀ a c₁, reader' c = .ok a c₁ → next a c₁ = next' a c₁) :
    (reader >>= next) c = (reader' >>= next') c := by
  simp only [bind, EStateM.bind, hreader]
  cases hfirst : reader' c with
  | ok a c₁ => exact hnext a c₁ hfirst
  | error e c₁ => rfl

theorem map_eq_ok_iff {f : α → β} {reader : Decoding α} {value : β} :
    (f <$> reader) c = .ok value c' ↔ ∃ a, reader c = .ok a c' ∧ f a = value := by
  simp only [Functor.map, EStateM.map]
  cases reader c with
  | ok a c₁ =>
      constructor
      · intro h
        cases h
        exact ⟨a, rfl, rfl⟩
      · rintro ⟨a', h, rfl⟩
        cases h
        rfl
  | error e c₁ => simp

theorem pure_eq_ok_iff {a value : α} :
    (pure a : Decoding α) c = .ok value c' ↔ a = value ∧ c = c' := by
  simp only [pure, EStateM.pure, EStateM.Result.ok.injEq]

theorem throw_ne_ok {e : DecodeError} {value : α} :
    (throw e : Decoding α) c ≠ .ok value c' := by
  change EStateM.Result.error e c ≠ .ok value c'
  exact nofun

/-- A check that fails with an error has not applied when the reader succeeds. -/
theorem unless_eq_ok_iff {p : Prop} [Decidable p] {e : DecodeError} {reader : Decoding α}
    {value : α} :
    (if p then throw e else reader) c = .ok value c' ↔ ¬p ∧ reader c = .ok value c' := by
  by_cases h : p
  · simp only [h, if_true, not_true, false_and, iff_false]
    exact throw_ne_ok
  · simp only [h, if_false, not_false_eq_true, true_and]

theorem asks_eq_ok_iff {f : Cursor → α} {value : α} :
    asks f c = .ok value c' ↔ f c = value ∧ c = c' := by
  simp only [asks, EStateM.Result.ok.injEq]

theorem get_eq_ok_iff {value : Cursor} :
    (get : Decoding Cursor) c = .ok value c' ↔ c = value ∧ c = c' := by
  change EStateM.Result.ok c c = .ok value c' ↔ _
  rw [EStateM.Result.ok.injEq]

theorem probe_eq_ok_iff {reader : Decoding α} {value : α} :
    probe reader c = .ok value c' ↔ (∃ c₁, reader c = .ok value c₁) ∧ c' = c := by
  unfold probe
  cases reader c with
  | ok a c₁ =>
      constructor
      · intro h
        cases h
        exact ⟨⟨c₁, rfl⟩, rfl⟩
      · rintro ⟨⟨c₂, h⟩, rfl⟩
        cases h
        rfl
  | error e c₁ => simp

/-- The cursor behind a sequence is the one behind its second part, if the first
succeeds. -/
theorem after_bind (reader : Decoding α) (next : α → Decoding β) (c : Cursor) :
    after (reader >>= next) c =
      match reader c with
      | .ok a c₁ => after (next a) c₁
      | .error _ c₁ => c₁ := by
  simp only [after, bind, EStateM.bind]
  cases reader c <;> rfl

theorem after_map (f : α → β) (reader : Decoding α) (c : Cursor) :
    after (f <$> reader) c = after reader c := by
  simp only [after, Functor.map, EStateM.map]
  cases reader c <;> rfl

/-! ## Raw access -/

@[simp] theorem advance_unread (c : Cursor) (n : Nat) :
    (c.advance n).unread = c.unread.drop n := rfl

@[simp] theorem advance_position (c : Cursor) (n : Nat) :
    (c.advance n).position = c.position + n := rfl

@[simp] theorem advance_size (c : Cursor) (n : Nat) : (c.advance n).size = c.size := rfl

@[simp] theorem advance_frames (c : Cursor) (n : Nat) : (c.advance n).frames = c.frames := rfl

@[simp] theorem advance_limits (c : Cursor) (n : Nat) : (c.advance n).limits = c.limits := rfl

@[simp] theorem advance_root (c : Cursor) (n : Nat) : (c.advance n).root = c.root := rfl

@[simp] theorem advance_entered (c : Cursor) (n : Nat) :
    (c.advance n).entered = c.entered := rfl

@[simp] theorem advance_bound (c : Cursor) (n : Nat) : (c.advance n).bound = c.bound := rfl

@[simp] theorem advance_depth (c : Cursor) (n : Nat) : (c.advance n).depth = c.depth := rfl

theorem take_eq_ok_iff {n : Nat} {what : String} {bytes : Bytes} :
    take n what c = .ok bytes c' ↔
      n ≤ c.available ∧ bytes = c.unread.take n ∧ c' = c.advance n := by
  unfold take
  split
  next h =>
    simp only [EStateM.Result.ok.injEq]
    exact ⟨fun e => ⟨h, e.1.symm, e.2.symm⟩, fun e => ⟨e.2.1.symm, e.2.2.symm⟩⟩
  next h => simp [h]

/-- A byte that is seen is there and may be read. -/
theorem available_pos_of_peekByte? {byte : UInt8} (h : c.peekByte? = some byte) :
    0 < c.available ∧ c.unread.head? = some byte := by
  unfold peekByte? at h
  by_cases hbound : c.position < c.bound
  · rw [if_pos hbound] at h
    exact ⟨Nat.sub_pos_of_lt hbound, h⟩
  · rw [if_neg hbound] at h
    cases h

theorem number_eq_ok_iff {width value : Nat} {what : String} :
    number width what c = .ok value c' ↔
      width ≤ c.available ∧ value = BigEndian.toNat (c.unread.take width) ∧
        c' = c.advance width := by
  simp only [number, bind_eq_ok_iff, pure_eq_ok_iff, take_eq_ok_iff]
  constructor
  · rintro ⟨bytes, c₁, ⟨hfits, rfl, rfl⟩, rfl, rfl⟩
    exact ⟨hfits, rfl, rfl⟩
  · rintro ⟨hfits, rfl, rfl⟩
    exact ⟨_, _, ⟨hfits, rfl, rfl⟩, rfl, rfl⟩

theorem formatHere_eq_ok_iff {what : String} {format : FormatCode} {offset : Nat} :
    formatHere what c = .ok (format, offset) c' ↔
      1 ≤ c.available ∧ FormatCode.ofByte? ((c.unread.take 1).headD 0) = some format ∧
        offset = c.position ∧ c' = c.advance 1 := by
  simp only [formatHere, bind_eq_ok_iff, asks_eq_ok_iff, take_eq_ok_iff]
  constructor
  · rintro ⟨_, _, ⟨rfl, rfl⟩, _, _, ⟨hfits, rfl, rfl⟩, h⟩
    cases hformat : FormatCode.ofByte? ((c.unread.take 1).headD 0) with
    | none =>
        rw [hformat] at h
        exact absurd h throw_ne_ok
    | some format' =>
        rw [hformat] at h
        obtain ⟨heq, rfl⟩ := pure_eq_ok_iff.mp h
        cases heq
        exact ⟨hfits, rfl, rfl, rfl⟩
  · rintro ⟨hfits, hformat, rfl, rfl⟩
    refine ⟨_, _, ⟨rfl, rfl⟩, _, _, ⟨hfits, rfl, rfl⟩, ?_⟩
    rw [hformat]
    rfl

/-! ## Elements and frames -/

/-- The cursor at the same place with other frames around it. -/
def within (c : Cursor) (frames : List Frame) : Cursor := { c with frames := frames }

@[simp] theorem within_unread (c : Cursor) (frames : List Frame) :
    (c.within frames).unread = c.unread := rfl

@[simp] theorem within_position (c : Cursor) (frames : List Frame) :
    (c.within frames).position = c.position := rfl

@[simp] theorem within_size (c : Cursor) (frames : List Frame) :
    (c.within frames).size = c.size := rfl

@[simp] theorem within_frames (c : Cursor) (frames : List Frame) :
    (c.within frames).frames = frames := rfl

@[simp] theorem within_limits (c : Cursor) (frames : List Frame) :
    (c.within frames).limits = c.limits := rfl

@[simp] theorem within_root (c : Cursor) (frames : List Frame) :
    (c.within frames).root = c.root := rfl

@[simp] theorem within_entered (c : Cursor) (frames : List Frame) :
    (c.within frames).entered = c.entered := rfl

theorem claim_eq_ok_iff {what : String} :
    claim what c = .ok () c' ↔
      (c.frames = [] ∧ c' = c) ∨
        ∃ frame outer, c.frames = frame :: outer ∧ frame.consumed < frame.count ∧
          c' = c.within (frame.claimed :: outer) := by
  unfold claim
  cases hframes : c.frames with
  | nil =>
      constructor
      · intro h
        cases h
        exact .inl ⟨rfl, rfl⟩
      · rintro (⟨-, rfl⟩ | ⟨frame, outer, h, -⟩)
        · rfl
        · cases h
  | cons frame outer =>
      by_cases hfull : frame.count ≤ frame.consumed
      · simp only [hfull, if_true, reduceCtorEq, false_and, false_or, false_iff]
        rintro ⟨frame', outer', h, hspare, -⟩
        cases h
        omega
      · simp only [hfull, if_false, reduceCtorEq, false_and, false_or]
        constructor
        · intro h
          cases h
          exact ⟨frame, outer, rfl, Nat.lt_of_not_le hfull, rfl⟩
        · rintro ⟨frame', outer', h, -, rfl⟩
          cases h
          rfl

/-- In a frame without an element left, none is claimed. -/
theorem claim_of_full {what : String} {frame : Frame} {outer : List Frame}
    (hframes : c.frames = frame :: outer) (hfull : frame.count ≤ frame.consumed) :
    claim what c =
      .error (.mismatch (.exhausted frame.kind what frame.count) c.position) c := by
  simp only [claim, hframes, if_pos hfull]

theorem depth_of_claim {what : String} (h : claim what c = .ok () c') : c'.depth = c.depth := by
  rcases claim_eq_ok_iff.mp h with ⟨-, rfl⟩ | ⟨frame, outer, hframes, -, rfl⟩
  · rfl
  · simp only [depth, within_frames, hframes, List.length_cons]

/-- The offset that comes with a format code is that of the value. -/
theorem offset_of_beginValue {what : String} {format : FormatCode} {offset : Nat}
    (h : beginValue what c = .ok (format, offset) c') : offset = c.position := by
  obtain ⟨_, c₁, hclaim, hformat⟩ := bind_eq_ok_iff.mp h
  obtain ⟨-, -, rfl, -⟩ := formatHere_eq_ok_iff.mp hformat
  rcases claim_eq_ok_iff.mp hclaim with ⟨-, rfl⟩ | ⟨frame, outer, -, -, rfl⟩
  · rfl
  · rfl

theorem push_eq_ok_iff {kind : FrameKind} {start count : Nat} {endsAt : Option Nat} :
    push kind start endsAt count c = .ok () c' ↔
      c.depth < c.limits.maxDepth ∧
        c' = c.within (⟨kind, start, endsAt, count, 0⟩ :: c.frames) := by
  unfold push
  by_cases hdeep : c.limits.maxDepth ≤ c.depth
  · simp only [hdeep, if_true, reduceCtorEq, false_iff]
    omega
  · simp only [hdeep, if_false]
    constructor
    · intro h
      cases h
      exact ⟨Nat.lt_of_not_le hdeep, rfl⟩
    · rintro ⟨-, rfl⟩
      rfl

theorem pop_eq_ok_iff {kind : FrameKind} :
    pop kind c = .ok () c' ↔
      ∃ frame outer, c.frames = frame :: outer ∧ frame.kind = kind ∧
        frame.consumed = frame.count ∧ (∀ e, frame.endsAt = some e → c.position = e) ∧
          c' = c.within outer := by
  unfold pop
  constructor
  · intro h
    cases hframes : c.frames with
    | nil => simp [hframes] at h
    | cons frame outer =>
        simp only [hframes] at h
        split at h
        next => cases h
        next hkind =>
          split at h
          next => cases h
          next hcount =>
            refine ⟨frame, outer, rfl, Decidable.not_not.mp hkind, Decidable.not_not.mp hcount, ?_⟩
            split at h
            next e hend =>
              split at h
              next => cases h
              next hposition =>
                cases h
                refine ⟨fun e' he' => ?_, rfl⟩
                rw [hend] at he'
                cases he'
                exact Decidable.not_not.mp hposition
            next hend =>
              cases h
              refine ⟨fun e' he' => ?_, rfl⟩
              rw [hend] at he'
              cases he'
  · rintro ⟨frame, outer, hframes, hkind, hcount, hend, rfl⟩
    cases hends : frame.endsAt with
    | none => simp [hframes, hkind, hcount, hends, within]
    | some e => simp [hframes, hkind, hcount, hends, hend e hends, within]

/-! ## Headers of lists and maps -/

theorem elementCount_eq_ok_iff {width declaredEnd sizeOffset count : Nat} {what : String} :
    elementCount width what declaredEnd sizeOffset c = .ok count c' ↔
      width ≤ c.available ∧ count = BigEndian.toNat (c.unread.take width) ∧
        count ≤ c.limits.maxCollectionLength ∧
          count ≤ declaredEnd - (c.position + width) ∧ c' = c.advance width := by
  simp only [elementCount, mismatch, bind_eq_ok_iff, number_eq_ok_iff, get_eq_ok_iff]
  constructor
  · rintro ⟨_, _, ⟨hfits, rfl, rfl⟩, _, _, ⟨rfl, rfl⟩, h⟩
    obtain ⟨hlimit, h⟩ := unless_eq_ok_iff.mp h
    obtain ⟨hcount, h⟩ := unless_eq_ok_iff.mp h
    obtain ⟨rfl, rfl⟩ := pure_eq_ok_iff.mp h
    exact ⟨hfits, rfl, Nat.le_of_not_lt hlimit, Nat.le_of_not_lt hcount, rfl⟩
  · rintro ⟨hfits, rfl, hlimit, hcount, rfl⟩
    refine ⟨_, _, ⟨hfits, rfl, rfl⟩, _, _, ⟨rfl, rfl⟩, unless_eq_ok_iff.mpr ⟨?_, ?_⟩⟩
    · exact Nat.not_lt.mpr hlimit
    · exact unless_eq_ok_iff.mpr ⟨Nat.not_lt.mpr hcount, rfl⟩

/-- A header is accepted if its size covers the count and fits before the bound, and its
count is within the bound on collections and within the bytes that the size leaves. -/
theorem compoundHeader_eq_ok_iff {width declaredEnd count : Nat} {what : String} :
    compoundHeader width what c = .ok (declaredEnd, count) c' ↔
      ∃ size, width ≤ c.available ∧ size = BigEndian.toNat (c.unread.take width) ∧
        width ≤ size ∧ size ≤ (c.advance width).available ∧
        declaredEnd = c.position + width + size ∧
        elementCount width what declaredEnd c.position (c.advance width) = .ok count c' := by
  simp only [compoundHeader, mismatch, bind_eq_ok_iff, asks_eq_ok_iff, number_eq_ok_iff,
    get_eq_ok_iff]
  constructor
  · rintro ⟨_, _, ⟨rfl, rfl⟩, _, _, ⟨hfits, rfl, rfl⟩, _, _, ⟨rfl, rfl⟩, h⟩
    obtain ⟨hcover, h⟩ := unless_eq_ok_iff.mp h
    obtain ⟨hsize, h⟩ := unless_eq_ok_iff.mp h
    obtain ⟨_, _, hcount, hpure⟩ := bind_eq_ok_iff.mp h
    obtain ⟨heq, rfl⟩ := pure_eq_ok_iff.mp hpure
    cases heq
    exact ⟨_, hfits, rfl, Nat.le_of_not_lt hcover, Nat.le_of_not_lt hsize, rfl, hcount⟩
  · rintro ⟨_, hfits, rfl, hcover, hsize, rfl, hcount⟩
    refine ⟨_, _, ⟨rfl, rfl⟩, _, _, ⟨hfits, rfl, rfl⟩, _, _, ⟨rfl, rfl⟩,
      unless_eq_ok_iff.mpr ⟨Nat.not_lt.mpr hcover, unless_eq_ok_iff.mpr ⟨Nat.not_lt.mpr hsize, ?_⟩⟩⟩
    exact bind_eq_ok_iff.mpr ⟨_, _, hcount, rfl⟩

end Cursor

end AmqpEnvelope
