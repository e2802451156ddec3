import AmqpEnvelope.Proofs.Cursor.Walk
import AmqpEnvelope.Proofs.Grammar.Slot

/-!
# Inputs that go on

A reader that succeeds has not looked at the end of the input: if the input went on, the
reader would have given the same value and stopped at the same place (`GoesOn`).  For
everything that follows a grammar this needs no proof of its own, since bytes that are
offered stay offered.  What is left are the opening and closing of frames and the readers
of envelopes.

Only where nothing is left may a reader tell the end, and then it takes for missing what
might come; so looking for an envelope goes on where there is something to look at.
-/

namespace AmqpEnvelope

namespace Cursor

/-- The same place in an input that goes on.  The types that were begun are no part of the
place. -/
def widen (c : Cursor) (more : Bytes) (names : List String) : Cursor :=
  { c with unread := c.unread ++ more, size := c.size + more.length, entered := names }

section

variable (c : Cursor) (more : Bytes) (names : List String)

@[simp] theorem widen_unread : (c.widen more names).unread = c.unread ++ more := rfl

@[simp] theorem widen_position : (c.widen more names).position = c.position := rfl

@[simp] theorem widen_size : (c.widen more names).size = c.size + more.length := rfl

@[simp] theorem widen_frames : (c.widen more names).frames = c.frames := rfl

@[simp] theorem widen_limits : (c.widen more names).limits = c.limits := rfl

@[simp] theorem widen_root : (c.widen more names).root = c.root := rfl

@[simp] theorem widen_allowance : (c.widen more names).allowance = c.allowance := rfl

@[simp] theorem widen_atRootSlot : (c.widen more names).atRootSlot = c.atRootSlot := rfl

end

variable {c c' : Cursor} {more : Bytes} {names : List String} {n : Nat} {bs : Bytes}

theorem EndsNest.le_size {size size' low : Nat} {frames : List Frame}
    (h : EndsNest size low frames) (hle : size ≤ size') : EndsNest size' low frames := by
  induction frames generalizing low with
  | nil => exact Nat.le_trans h hle
  | cons frame outer ih =>
      cases hend : frame.endsAt with
      | none =>
          rw [EndsNest.cons_none hend] at h ⊢
          exact ih h
      | some e =>
          rw [EndsNest.cons_some hend] at h ⊢
          exact ⟨h.1, ih h.2⟩

theorem Coherent.widen (hc : c.Coherent) (more : Bytes) (names : List String) :
    (c.widen more names).Coherent where
  position_add_length := by
    have hlength := hc.position_add_length
    simp only [widen_position, widen_unread, List.length_append, widen_size]
    omega
  nested := hc.nested.le_size (Nat.le_add_right _ _)
  consumed_le := hc.consumed_le
  count_le := hc.count_le
  depth_le := hc.depth_le
  root_le := hc.root_le

/-- An input that goes on does not end earlier. -/
theorem available_le_widen (c : Cursor) (more : Bytes) (names : List String) :
    c.available ≤ (c.widen more names).available := by
  have hbound : c.bound ≤ (c.widen more names).bound := by
    simp only [bound, widen_frames, widen_size]
    cases innermostEnd? c.frames with
    | none => exact Nat.le_add_right _ _
    | some e => exact Nat.le_refl _
  simp only [available, widen_position]
  omega

theorem Offers.widen (h : c.Offers n bs) (more : Bytes) (names : List String) :
    (c.widen more names).Offers n bs where
  fits := Nat.le_trans h.fits (available_le_widen c more names)
  front := h.front.trans (List.prefix_append _ _)
  spare := h.spare

theorem widen_past (h : c.Offers n bs) (more : Bytes) (begun names names' : List String) :
    (c.past n bs begun).widen more names' = (c.widen more names).past n bs names' := by
  have hlength := h.front.length_le
  simp only [past, Cursor.widen, advance, List.drop_append_of_le_length hlength]

theorem remaining_widen (hframes : c.frames ≠ []) (more : Bytes) (names : List String) :
    (c.widen more names).remaining = c.remaining := by
  unfold remaining
  rw [widen_frames]
  cases hcons : c.frames with
  | nil => exact absurd hcons hframes
  | cons frame outer => rfl

/-- Where something is available, the next byte is there whatever follows. -/
theorem peekByte?_widen (hc : c.Coherent) (havailable : 0 < c.available) (more : Bytes)
    (names : List String) : (c.widen more names).peekByte? = c.peekByte? := by
  have hwide := available_le_widen c more names
  have hlength := hc.available_le_length
  unfold available at havailable hwide hlength
  rw [peekByte?, peekByte?, if_pos (by omega), if_pos (by omega), widen_unread]
  cases hunread : c.unread with
  | nil => simp [hunread] at hlength; omega
  | cons byte rest => rfl

theorem skipRemaining_eq (hframes : c.frames ≠ []) :
    skipRemaining c = skipUpTo c.remaining c := by
  have hempty : c.frames.isEmpty = false := by
    rw [List.isEmpty_eq_false_iff]
    exact hframes
  change skipUpTo (if c.frames.isEmpty then c.size - c.position else c.remaining) c = _
  rw [hempty]
  rfl

end Cursor

open Cursor

/-- In a composite there is a frame. -/
theorem frames_ne_nil_of_enterComposite {c c' : Cursor} (hc : c.Coherent) {d : Descriptor}
    (h : enterComposite c = .ok d c') : c'.frames ≠ [] := by
  obtain ⟨opening, c₁, hopen, h⟩ := bind_eq_ok_iff.mp h
  obtain ⟨count, c₂, henter, h⟩ := bind_eq_ok_iff.mp h
  obtain ⟨-, rfl⟩ := pure_eq_ok_iff.mp h
  have hc₁ := walks_beginDescribed.coherent hc hopen
  obtain ⟨_, _, _, -, -, -, hopens⟩ := (enters_enterList hc₁).sound henter
  rw [hopens.frames_eq]
  exact List.cons_ne_nil _ _

/-- If the reader succeeds here, it gives the same value in any input that goes on, and stops
at the same place. -/
def GoesOn {α : Type} (c : Cursor) (reader : Decoding α) : Prop :=
  ∀ ⦃value : α⦄ ⦃c' : Cursor⦄, reader c = .ok value c' → ∀ more names, ∃ names',
    reader (c.widen more names) = .ok value (c'.widen more names')

namespace GoesOn

variable {α β : Type} {c : Cursor}

theorem pure (a : α) : GoesOn c (pure a) := by
  intro value c' h more names
  obtain ⟨rfl, rfl⟩ := pure_eq_ok_iff.mp h
  exact ⟨names, rfl⟩

theorem throw (e : DecodeError) : GoesOn c (throw e : Decoding α) :=
  fun _ _ h => absurd h throw_ne_ok

theorem asks {f : Cursor → α} {next : α → Decoding β}
    (hsame : ∀ more names, f (c.widen more names) = f c) (hnext : GoesOn c (next (f c))) :
    GoesOn c (asks f >>= next) := by
  intro value c' h more names
  obtain ⟨names', h'⟩ := hnext h more names
  refine ⟨names', ?_⟩
  rw [← hsame more names] at h'
  exact h'

theorem get {next : Cursor → Decoding β}
    (hsame : ∀ more names, next (c.widen more names) = next c) (hnext : GoesOn c (next c)) :
    GoesOn c (get >>= next) := by
  intro value c' h more names
  obtain ⟨names', h'⟩ := hnext h more names
  refine ⟨names', ?_⟩
  rw [← hsame more names] at h'
  exact h'

theorem bind {reader : Decoding α} {next : α → Decoding β} (hreader : GoesOn c reader)
    (hnext : ∀ a c₁, reader c = .ok a c₁ → GoesOn c₁ (next a)) : GoesOn c (reader >>= next) := by
  intro value c' h more names
  obtain ⟨a, c₁, hfirst, hsecond⟩ := bind_eq_ok_iff.mp h
  obtain ⟨names₁, hfirst'⟩ := hreader hfirst more names
  obtain ⟨names', hsecond'⟩ := hnext a c₁ hfirst hsecond more names₁
  exact ⟨names', bind_eq_ok_iff.mpr ⟨a, _, hfirst', hsecond'⟩⟩

/-- Bytes of a grammar stay offered. -/
theorem of_readsAt {reader : Decoding α} {g : Grammar α} (hreader : ReadsAt c reader g)
    (hwide : ∀ more names, ReadsAt (c.widen more names) reader g) : GoesOn c reader := by
  intro value c' h more names
  obtain ⟨n, bs, hg, hoffers, heq⟩ := hreader.sound h
  obtain ⟨c₂, h', -, heq'⟩ :=
    (hwide more names).complete (Limits.le_refl _) hg (hoffers.widen more names)
  refine ⟨c₂.entered, ?_⟩
  rw [h', heq, widen_past hoffers more _ names, ← heq']

/-- A container that is opened here can be opened in an input that goes on. -/
theorem of_enters {ω ι : Type} {enter : Decoding ω} {kind : FrameKind} {make : ι → ω}
    {heads : HeadGrammar ι} (henter : Enters c enter kind make heads)
    (hwide : ∀ more names, Enters (c.widen more names) enter kind make heads) :
    GoesOn c enter := by
  intro w c₁ h more names
  obtain ⟨head, heading, info, rfl, hheads, -, hopens⟩ := henter.sound h
  have hoffers := hopens.offers
  have hfits : ∀ size, heading.size = some size →
      head.length + size ≤ (c.widen more names).available := fun size hsize =>
    Nat.le_trans (hopens.fits size hsize) (available_le_widen c more names)
  obtain ⟨-, c₂, h', hopens'⟩ := (hwide more names).complete (Limits.le_refl _) hheads
    (hoffers.widen more names) hfits hopens.room
  refine ⟨c₂.entered, ?_⟩
  -- The frame that is opened has the same end, since that is declared and not the input's.
  have hopened : c₂ = c₁.widen more c₂.entered := by
    have heq' := hopens'.opened
    rw [← widen_past hoffers more c₁.entered names] at heq'
    rw [hopens.opened]
    exact heq'
  rw [h', ← hopened]

theorem markRoot : GoesOn c markRoot := by
  rintro _ _ ⟨⟩ more names
  exact ⟨names, rfl⟩

theorem pop (kind : FrameKind) : GoesOn c (pop kind) := by
  intro _ c' h more names
  obtain ⟨frame, outer, hframes, hkind, hcount, hend, rfl⟩ := pop_eq_ok_iff.mp h
  exact ⟨names, pop_eq_ok_iff.mpr ⟨frame, outer, hframes, hkind, hcount, hend, rfl⟩⟩

theorem exitComposite : GoesOn c exitComposite :=
  (pop .list).bind fun _ _ _ => pop .described

theorem enterComposite (hc : c.Coherent) : GoesOn c enterComposite := by
  refine (of_enters (enters_beginDescribed hc)
    fun more names => enters_beginDescribed (hc.widen more names)).bind fun opening c₁ hopen => ?_
  have hc₁ := walks_beginDescribed.coherent hc hopen
  exact (of_enters (enters_enterList hc₁)
    fun more names => enters_enterList (hc₁.widen more names)).bind fun _ _ _ => .pure _

theorem skip (hc : c.Coherent) : GoesOn c skip :=
  of_readsAt (readsAt_skip hc) fun more names => readsAt_skip (hc.widen more names)

/-- In a frame the number of values left is that of the frame, wherever the input ends. -/
theorem skipUpTo (hc : c.Coherent) (hframes : c.frames ≠ []) (steps : Nat) :
    GoesOn c (skipUpTo steps) := by
  induction steps generalizing c with
  | zero => exact .pure _
  | succ steps ih =>
      refine .asks (remaining_widen hframes) ?_
      split
      · exact .pure _
      · refine (skip hc).bind fun _ c₁ hskip => ?_
        obtain ⟨_, bs, ⟨rfl, -⟩, hpasses⟩ := (readsAt_skip hc).sound hskip
        exact ih (hpasses.coherent hc) (hpasses.frames_ne_nil hframes)

theorem skipRemaining (hc : c.Coherent) (hframes : c.frames ≠ []) : GoesOn c skipRemaining := by
  intro _ c' h more names
  rw [skipRemaining_eq hframes] at h
  obtain ⟨names', h'⟩ := skipUpTo hc hframes _ h more names
  refine ⟨names', ?_⟩
  rw [skipRemaining_eq (c := c.widen more names) hframes, remaining_widen hframes, h']

/-- Whatever is decoded does not depend on what follows it. -/
theorem target {registry : Registry} (hregistry : registry.Declared) (hc : c.Coherent)
    (t : Target) : GoesOn c (registry.decodeTarget t) := by
  have hlevels : c.allowance.maxDepth < c.allowance.maxDepth + 1 := Nat.lt_succ_self _
  exact of_readsAt (readsAt_target hregistry hc hlevels t) fun more names =>
    readsAt_target hregistry (hc.widen more names) hlevels t

/-! ## Envelopes -/

theorem peekDescriptor (hc : c.Coherent) (havailable : 0 < c.available) :
    GoesOn c peekDescriptor := by
  intro found c' h more names
  refine ⟨names, ?_⟩
  have hbyte := peekByte?_widen hc havailable more names
  unfold Cursor.peekDescriptor at h ⊢
  rw [hbyte]
  by_cases hmarker : c.peekByte? = some FormatCode.described.toByte
  · rw [if_pos hmarker] at h ⊢
    have hc₁ : (c.advance 1).Coherent := (Move.pass 1 havailable).coherent hc
    have hraw : GoesOn (c.advance 1) rawDescriptor :=
      of_readsAt (readsAt_rawDescriptor hc₁) fun more names =>
        readsAt_rawDescriptor (hc₁.widen more names)
    have hmoved : (c.widen more names).advance 1 = (c.advance 1).widen more names := by
      have hlength := Nat.le_trans havailable hc.available_le_length
      simp only [advance, widen, List.drop_append_of_le_length hlength]
    cases hread : rawDescriptor (c.advance 1) with
    | error e c₁ =>
        rw [hread] at h
        cases h
    | ok raw c₁ =>
        rw [hread] at h
        cases h
        obtain ⟨names', hread'⟩ := hraw hread more names
        rw [hmoved, hread']
  · rw [if_neg hmarker] at h ⊢
    cases h
    rfl

theorem enterEnvelope (hc : c.Coherent) (havailable : 0 < c.available) :
    GoesOn c enterEnvelope := by
  refine (peekDescriptor hc havailable).bind fun found c₁ hpeek => ?_
  obtain rfl := peekDescriptor_stays hpeek
  split
  · refine (enterComposite hc).bind fun d c₂ henter => ?_
    have hframes := frames_ne_nil_of_enterComposite hc henter
    refine .get (fun more names => ?_) ?_
    · rw [remaining_widen hframes, widen_position]
    · split
      · exact .throw _
      · exact .pure _
  · exact .pure _

end GoesOn

end AmqpEnvelope
