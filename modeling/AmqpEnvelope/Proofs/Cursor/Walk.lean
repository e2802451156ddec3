import AmqpEnvelope.Framing
import AmqpEnvelope.Proofs.Cursor.Coherence

/-!
# Readers walk

A reader *walks* if it leaves a cursor that is reached by moves, whether it succeeds or
fails.  Sequences of walking readers walk, and so do all readers of primitive values,
containers, framing and skipped values: a reader that fails halfway has made the moves
up to there.

Only the two headers need an argument.  A list or map is opened with the end that its
header has been checked against, and `listHeader_between` and `mapHeader_between` say
that this end lies between the cursor and the bound.
-/

namespace AmqpEnvelope

namespace Cursor

variable {α β : Type}

/-- Whatever a reader answers, the cursor that it leaves is reached by moves. -/
def Walks (reader : Decoding α) : Prop := ∀ c, Walk c (after reader c)

/-- A sequence makes the moves of its first part and, if that succeeds, those of its
second part from there on. -/
theorem walk_bind {reader : Decoding α} {next : α → Decoding β} {c : Cursor}
    (hreader : Walk c (after reader c))
    (hnext : ∀ a c₁, reader c = .ok a c₁ → Walk c₁ (after (next a) c₁)) :
    Walk c (after (reader >>= next) c) := by
  rw [after_bind]
  cases h : reader c with
  | ok a c₁ =>
      rw [after_of_ok h] at hreader
      exact hreader.trans (hnext a c₁ h)
  | error e c₁ =>
      simp only [after, h] at hreader
      exact hreader

namespace Walks

variable {reader : Decoding α} {next : α → Decoding β}

theorem bind (hreader : Walks reader) (hnext : ∀ a, Walks (next a)) :
    Walks (reader >>= next) :=
  fun c => walk_bind (hreader c) fun a c₁ _ => hnext a c₁

theorem map {f : α → β} (hreader : Walks reader) : Walks (f <$> reader) := by
  intro c
  rw [after_map]
  exact hreader c

theorem pure (a : α) : Walks (pure a : Decoding α) := fun _ => .refl

theorem throw (e : DecodeError) : Walks (throw e : Decoding α) := fun _ => .refl

theorem asks (f : Cursor → α) : Walks (asks f) := fun _ => .refl

theorem get : Walks (get : Decoding Cursor) := fun _ => .refl

/-- A probe comes back, so it makes no move at all. -/
theorem probe (reader : Decoding α) : Walks (probe reader) := by
  intro c
  unfold after Cursor.probe
  cases reader c <;> exact .refl

/-- Where a walking reader succeeds, it keeps the bookkeeping in order. -/
theorem coherent {c c' : Cursor} {value : α} (hreader : Walks reader) (hc : c.Coherent)
    (h : reader c = .ok value c') : c'.Coherent := by
  have hwalk := hreader c
  rw [after_of_ok h] at hwalk
  exact hwalk.coherent hc

end Walks

/-! ## Raw access, elements and frames -/

theorem walks_take (n : Nat) (what : String) : Walks (take n what) := by
  intro c
  unfold after take
  by_cases hfits : n ≤ c.available
  · simp only [hfits, if_true]
    exact .single (.pass n hfits)
  · simp only [hfits, if_false]
    exact .refl

theorem walks_number (width : Nat) (what : String) : Walks (number width what) :=
  (walks_take width what).bind fun _ => .pure _

theorem walks_rawByte (what : String) : Walks (rawByte what) :=
  (walks_take 1 what).bind fun _ => .pure _

theorem walks_strip (expected : Bytes) : Walks (strip expected) := by
  intro c
  unfold after strip
  by_cases h : (c.frames.isEmpty && expected.isPrefixOf c.unread) = true
  · rw [if_pos h]
    obtain ⟨hframes, hfront⟩ := Bool.and_eq_true_iff.mp h
    have hlength := (List.isPrefixOf_iff_prefix.mp hfront).length_le
    exact .single (.strip _ (List.isEmpty_iff.mp hframes) hlength)
  · rw [if_neg h]

theorem walks_markRoot : Walks markRoot := fun _ => .single .mark

theorem walks_enterType (name : String) : Walks (enterType name) :=
  fun _ => .single (.begin name)

theorem walks_claim (what : String) : Walks (claim what) := by
  intro c
  unfold after claim
  cases hframes : c.frames with
  | nil => exact .refl
  | cons frame outer =>
      by_cases hfull : frame.count ≤ frame.consumed
      · simp only [hfull, if_true]
        exact .refl
      · simp only [hfull, if_false]
        exact .single (.claim frame outer hframes (Nat.lt_of_not_le hfull))

theorem walks_formatHere (what : String) : Walks (formatHere what) := by
  refine (Walks.asks _).bind fun offset => (walks_take 1 what).bind fun bytes => ?_
  dsimp only
  cases FormatCode.ofByte? (bytes.headD 0) with
  | none => exact .throw _
  | some format => exact .pure _

theorem walks_beginValue (what : String) : Walks (beginValue what) :=
  (walks_claim what).bind fun _ => walks_formatHere what

theorem walks_wrongFormat (expected : String) (format : FormatCode) (offset : Nat) :
    Walks (wrongFormat expected format offset : Decoding α) := .throw _

theorem walks_push_described (start : Nat) : Walks (push .described start none 1) := by
  intro c
  unfold after push
  by_cases hdeep : c.limits.maxDepth ≤ c.depth
  · simp only [hdeep, if_true]
    exact .refl
  · simp only [hdeep, if_false]
    exact .single (.describe start (Nat.lt_of_not_le hdeep))

/-- A list or map may be opened where its end lies between the cursor and the bound. -/
theorem walk_push {c : Cursor} {declaredEnd count : Nat} (kind : FrameKind) (start : Nat)
    (hstart : c.position ≤ declaredEnd) (hend : declaredEnd ≤ c.bound)
    (hcount : count ≤ c.limits.maxCollectionLength) :
    Walk c (after (push kind start (some declaredEnd) count) c) := by
  unfold after push
  by_cases hdeep : c.limits.maxDepth ≤ c.depth
  · simp only [hdeep, if_true]
    exact .refl
  · simp only [hdeep, if_false]
    exact .single (.contain kind start declaredEnd count (Nat.lt_of_not_le hdeep) hstart hend hcount)

theorem walks_pop (kind : FrameKind) : Walks (pop kind) := by
  intro c
  cases h : pop kind c with
  | ok _ c' =>
      obtain ⟨frame, outer, hframes, -, hcount, hend, rfl⟩ := pop_eq_ok_iff.mp h
      rw [after_of_ok h]
      exact .single (.close frame outer hframes hcount hend)
  | error e c' =>
      have hsame : c' = c := by
        unfold pop at h
        repeat' split at h
        all_goals cases h
        all_goals rfl
      simp only [after, h, hsame]
      exact .refl

/-! ## Primitive values -/

theorem walks_payload (category : WidthCategory) (what : String) :
    Walks (payload category what) := by
  unfold payload
  split
  · exact .pure _
  · exact walks_take _ what
  all_goals exact (walks_number _ what).bind fun _ => walks_take _ what

theorem walks_primitiveBody (p : Primitive) (format : FormatCode) (offset : Nat) :
    Walks (primitiveBody p format offset) := by
  refine (walks_payload _ _).bind fun bytes => ?_
  cases p.interpret format bytes offset with
  | ok value => exact .pure _
  | error e => exact .throw _

theorem walks_read (p : Primitive) : Walks (read p) := by
  refine (walks_beginValue _).bind fun ⟨format, offset⟩ => ?_
  by_cases h : format.primitive? = some p
  · simp only [h, if_true]
    exact walks_primitiveBody p format offset
  · simp only [h, if_false]
    exact walks_wrongFormat _ _ _

theorem walks_readScalar (p : Primitive) : Walks (readScalar p) :=
  (walks_read p).bind fun _ => .pure _

/-! ## Described values -/

theorem walks_rawDescriptor : Walks rawDescriptor := by
  refine (walks_formatHere _).bind fun ⟨format, offset⟩ => ?_
  dsimp only
  split
  · exact (walks_primitiveBody _ _ _).bind fun _ => .pure _
  · exact (walks_primitiveBody _ _ _).bind fun _ => .pure _
  · exact walks_wrongFormat _ _ _

theorem walks_peekDescriptor : Walks peekDescriptor := by
  intro c
  unfold after peekDescriptor
  by_cases hmarker : c.peekByte? = some FormatCode.described.toByte
  · simp only [hmarker, if_true]
    cases rawDescriptor (c.advance 1) <;> exact .refl
  · simp only [hmarker, if_false]
    exact .refl

theorem walks_beginDescribed : Walks beginDescribed := by
  refine (walks_beginValue _).bind fun ⟨format, offset⟩ => ?_
  by_cases h : format = .described
  · simp only [h, if_true]
    exact walks_rawDescriptor.bind fun _ => (walks_push_described offset).bind fun _ => .pure _
  · simp only [h, if_false]
    exact walks_wrongFormat _ _ _

theorem walks_expectSymbol (expected : String) : Walks (expectSymbol expected) := by
  refine walks_beginDescribed.bind fun opening => ?_
  cases opening.requireSymbol expected with
  | ok => exact .pure _
  | error e => exact .throw _

/-! ## Lists and maps -/

/-- A header that is accepted declares an end between the cursor and the bound, and no
more elements than a collection may have. -/
theorem compoundHeader_between {c c' : Cursor} {width declaredEnd count : Nat} {what : String}
    (hwidth : 0 < width) (h : compoundHeader width what c = .ok (declaredEnd, count) c') :
    c'.position ≤ declaredEnd ∧ declaredEnd ≤ c'.bound ∧
      count ≤ c'.limits.maxCollectionLength := by
  obtain ⟨size, hfits, -, hcover, hsize, rfl, hcount⟩ := compoundHeader_eq_ok_iff.mp h
  obtain ⟨-, -, hlimit, -, rfl⟩ := elementCount_eq_ok_iff.mp hcount
  refine ⟨?_, ?_, hlimit⟩
  · simp only [advance_position]
    omega
  · simp only [available, advance_bound, advance_position] at hfits hsize ⊢
    omega

theorem walks_elementCount (width : Nat) (what : String) (declaredEnd sizeOffset : Nat) :
    Walks (elementCount width what declaredEnd sizeOffset) := by
  refine (walks_number _ _).bind fun count => Walks.get.bind fun c => ?_
  repeat' split
  · exact .throw _
  · exact .throw _
  · exact .pure _

theorem walks_compoundHeader (width : Nat) (what : String) :
    Walks (compoundHeader width what) := by
  refine (Walks.asks _).bind fun sizeOffset => (walks_number _ _).bind fun size =>
    Walks.get.bind fun c => ?_
  repeat' split
  · exact .throw _
  · exact .throw _
  · exact (walks_elementCount _ _ _ _).bind fun _ => .pure _

theorem walks_listHeader (format : FormatCode) (offset : Nat) :
    Walks (listHeader format offset) := by
  unfold listHeader
  split
  · exact (Walks.asks _).bind fun _ => .pure _
  · exact walks_compoundHeader _ _
  · exact walks_compoundHeader _ _
  · exact walks_wrongFormat _ _ _

theorem walks_mapHeader (format : FormatCode) (offset : Nat) :
    Walks (mapHeader format offset) := by
  unfold mapHeader
  split
  · exact walks_compoundHeader _ _
  · exact walks_compoundHeader _ _
  · exact walks_wrongFormat _ _ _

/-- The empty list ends where its format code does, which is before the bound since the
code has been read. -/
theorem listHeader_between {c c' : Cursor} {format : FormatCode}
    {offset declaredEnd count : Nat} (hc : c.position ≤ c.bound)
    (h : listHeader format offset c = .ok (declaredEnd, count) c') :
    c'.position ≤ declaredEnd ∧ declaredEnd ≤ c'.bound ∧
      count ≤ c'.limits.maxCollectionLength := by
  unfold listHeader at h
  split at h
  · obtain ⟨_, _, hasks, hpure⟩ := bind_eq_ok_iff.mp h
    obtain ⟨rfl, rfl⟩ := asks_eq_ok_iff.mp hasks
    obtain ⟨heq, rfl⟩ := pure_eq_ok_iff.mp hpure
    cases heq
    exact ⟨Nat.le_refl _, hc, Nat.zero_le _⟩
  · exact compoundHeader_between (by decide) h
  · exact compoundHeader_between (by decide) h
  · exact absurd h throw_ne_ok

theorem mapHeader_between {c c' : Cursor} {format : FormatCode}
    {offset declaredEnd count : Nat}
    (h : mapHeader format offset c = .ok (declaredEnd, count) c') :
    c'.position ≤ declaredEnd ∧ declaredEnd ≤ c'.bound ∧
      count ≤ c'.limits.maxCollectionLength := by
  unfold mapHeader at h
  split at h
  · exact compoundHeader_between (by decide) h
  · exact compoundHeader_between (by decide) h
  · exact absurd h throw_ne_ok

/-- Behind a format code that was read the cursor still stands before the bound. -/
theorem position_le_bound_of_beginValue {c c' : Cursor} {what : String}
    {found : FormatCode × Nat} (h : beginValue what c = .ok found c') :
    c'.position ≤ c'.bound := by
  obtain ⟨_, c₁, -, hformat⟩ := bind_eq_ok_iff.mp h
  obtain ⟨hfits, -, -, rfl⟩ := formatHere_eq_ok_iff.mp hformat
  simp only [available] at hfits
  simp only [advance_position, advance_bound]
  omega

theorem walks_enterList : Walks enterList := by
  intro c
  refine walk_bind (walks_beginValue _ c) fun ⟨format, offset⟩ c₁ hbegin => ?_
  have hbound := position_le_bound_of_beginValue hbegin
  refine walk_bind (walks_listHeader format offset c₁) fun ⟨declaredEnd, count⟩ c₂ hheader => ?_
  obtain ⟨hstart, hend, hcount⟩ := listHeader_between hbound hheader
  exact walk_bind (walk_push .list offset hstart hend hcount) fun _ _ _ => .refl

theorem walks_enterMap : Walks enterMap := by
  intro c
  refine walk_bind (walks_beginValue _ c) fun ⟨format, offset⟩ c₁ hbegin => ?_
  refine walk_bind (walks_mapHeader format offset c₁) fun ⟨declaredEnd, count⟩ c₂ hheader => ?_
  obtain ⟨hstart, hend, hcount⟩ := mapHeader_between hheader
  by_cases heven : count % 2 = 0
  · simp only [heven, if_true]
    exact walk_bind (walk_push .map offset hstart hend hcount) fun _ _ _ => .refl
  · simp only [heven, if_false]
    exact .refl

/-! ## Composites and repetition -/

theorem walks_enterComposite : Walks enterComposite :=
  walks_beginDescribed.bind fun _ => walks_enterList.bind fun _ => .pure _

theorem walks_exitComposite : Walks exitComposite :=
  (walks_pop .list).bind fun _ => walks_pop .described

theorem walks_collect {reader : Decoding α} (hreader : Walks reader) (n : Nat) (done : List α) :
    Walks (collect reader n done) := by
  induction n generalizing done with
  | zero => exact .pure _
  | succ n ih => exact hreader.bind fun item => ih (item :: done)

theorem walks_listOf {reader : Decoding α} (hreader : Walks reader) : Walks (listOf reader) :=
  walks_enterList.bind fun count => (walks_collect hreader count []).bind fun _ =>
    (walks_pop .list).bind fun _ => .pure _

theorem walks_nullable {reader : Decoding α} (hreader : Walks reader) :
    Walks (nullable reader) := by
  refine (Walks.asks _).bind fun null => ?_
  cases null with
  | true => exact (walks_read .null).bind fun _ => .pure _
  | false => exact hreader.bind fun _ => .pure _

/-! ## Skipping -/

theorem walks_skipBody (room depth : Nat) : Walks (skipBody room depth) := by
  induction room generalizing depth with
  | zero =>
      unfold skipBody
      refine (walks_formatHere _).bind fun ⟨format, offset⟩ => ?_
      dsimp only
      split
      · exact (Walks.asks _).bind fun _ => .throw _
      · exact (walks_payload _ _).bind fun _ => .pure _
  | succ room ih =>
      unfold skipBody
      refine (walks_formatHere _).bind fun ⟨format, offset⟩ => ?_
      dsimp only
      split
      · exact (ih (depth + 1)).bind fun _ => ih (depth + 1)
      · exact (walks_payload _ _).bind fun _ => .pure _

theorem walks_skip : Walks skip :=
  (walks_claim _).bind fun _ => Walks.get.bind fun _ => walks_skipBody _ _

theorem after_capture (c : Cursor) : after capture c = after skip c := by
  unfold after capture
  cases skip c <;> rfl

theorem walks_capture : Walks capture := by
  intro c
  rw [after_capture]
  exact walks_skip c

theorem walks_skipUpTo (steps : Nat) : Walks (skipUpTo steps) := by
  induction steps with
  | zero => exact .pure _
  | succ steps ih =>
      refine (Walks.asks _).bind fun left => ?_
      by_cases h : left = 0
      · simp only [h, if_true]
        exact .pure _
      · simp only [h, if_false]
        exact walks_skip.bind fun _ => ih

theorem walks_skipRemaining : Walks skipRemaining :=
  Walks.get.bind fun _ => walks_skipUpTo _

/-! ## Framing -/

theorem walks_sectionNumber : Walks sectionNumber := by
  intro c
  have hbyte := walks_rawByte "section id" c
  unfold after sectionNumber
  cases h : rawByte "section id" c with
  | error e c₁ =>
      simp only [after, h] at hbyte
      exact hbyte
  | ok id c₁ =>
      rw [after_of_ok h] at hbyte
      by_cases hdata : id = dataSection
      · simp only [hdata, if_true]
        exact hbyte
      · simp only [hdata, if_false]
        exact hbyte

theorem walks_readPreamble (framing : Framing) : Walks (readPreamble framing) := by
  refine Walks.get.bind fun c => (walks_strip _).bind fun found => ?_
  repeat' split
  · exact walks_sectionNumber.bind fun _ => .pure _
  · exact .throw _
  · exact .throw _
  · exact .pure _

theorem walks_enterEnvelope : Walks enterEnvelope := by
  refine walks_peekDescriptor.bind fun found => ?_
  split
  · refine walks_enterComposite.bind fun _ => Walks.get.bind fun c => ?_
    split
    · exact .throw _
    · exact .pure _
  · exact .pure _

theorem walks_exitEnvelope : Walks exitEnvelope :=
  walks_skipRemaining.bind fun _ => walks_exitComposite

end Cursor

end AmqpEnvelope
