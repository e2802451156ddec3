import AmqpEnvelope.Proofs.Decode.Nesting
import AmqpEnvelope.Proofs.Decode.Skipping

/-!
# Progress and termination

Every value that is read takes at least one byte, so whatever reads value after value comes to
an end.  The loops that do, over the values of a stream and over what is left in an envelope,
are given here with a bound on their rounds and with something to do `beyond` it; nothing
beyond is ever done if there are as many rounds as bytes, or as elements of the innermost
frame (`loop_congr`).  The calls that readers make within each other are bounded by the
frames that may be open.

`Cursor.Reachable.walks_end` puts this together for every reachable cursor.
-/

namespace AmqpEnvelope

open Cursor

variable {c c' : Cursor}

/-! ## Progress -/

namespace Cursor

/-- What is skipped is one element, of at least one byte. -/
theorem passes_of_skip (hc : c.Coherent) (h : skip c = .ok () c') :
    ∃ bs, Extent c.allowance.maxDepth bs ∧ c.Passes 1 bs c' := by
  obtain ⟨_, bs, ⟨rfl, hextent⟩, hpasses⟩ := (readsAt_skip hc).sound h
  exact ⟨bs, hextent, hpasses⟩

theorem position_lt_of_passes {n : Nat} {bs : Bytes} (h : c.Passes n bs c') (hne : bs ≠ []) :
    c.position < c'.position := by
  rw [h.2, past_position]
  exact Nat.lt_add_of_pos_right (List.length_pos_iff.mpr hne)

theorem bytesLeft_lt_of_passes {n : Nat} {bs : Bytes} (hc : c.Coherent) (h : c.Passes n bs c')
    (hne : bs ≠ []) : c'.size - c'.position < c.size - c.position := by
  have hc' := h.coherent hc
  have hend := Nat.le_trans hc'.position_le_bound hc'.bound_le_size
  have hlt := position_lt_of_passes h hne
  have hsize : c'.size = c.size := by rw [h.2, past_size]
  omega

theorem position_lt_of_skip (hc : c.Coherent) (h : skip c = .ok () c') :
    c.position < c'.position := by
  obtain ⟨bs, hextent, hpasses⟩ := passes_of_skip hc h
  exact position_lt_of_passes hpasses hextent.ne_nil

/-- Without a format code in front, there is nothing to skip. -/
theorem skip_of_unrecognised (hc : c.Coherent) (h : c.peekFormat? = none) :
    ∃ e c', skip c = .error e c' := by
  cases hskip : skip c with
  | error e c' => exact ⟨e, c', rfl⟩
  | ok _ c' => exact absurd hskip (skip_ne_ok_of_peekFormat? hc h)

end Cursor

theorem ReadsValue.position_lt {registry : Registry} (hregistry : registry.Declared) {α : Type}
    {reader : Decoding α} (hreader : ReadsValue registry reader) (hc : c.Coherent) {value : α}
    (h : reader c = .ok value c') : c.position < c'.position := by
  obtain ⟨bs, _, hne, hpasses, -⟩ := hreader.skip_of_ok hregistry hc h
  exact position_lt_of_passes hpasses hne

/-! ## Loops -/

namespace Cursor

section

variable {α : Type} {goesOn : Cursor → Bool} {round beyond beyond' : α → Decoding α}

/-- A loop that goes on while the cursor has a property.  If it still does after so many rounds,
the rest is left to what stands beyond. -/
def loop (goesOn : Cursor → Bool) (round beyond : α → Decoding α) : (rounds : Nat) → α → Decoding α
  | 0, a => do
      if ← asks goesOn then beyond a
      else return a
  | rounds + 1, a => do
      if ← asks goesOn then
        let next ← round a
        loop goesOn round beyond rounds next
      else return a

theorem loop_of_done (hdone : goesOn c = false) (rounds : Nat) (a : α) :
    loop goesOn round beyond rounds a c = .ok a c := by
  have hasks : asks goesOn c = .ok false c := asks_eq_ok_iff.mpr ⟨hdone, rfl⟩
  cases rounds with
  | zero =>
      rw [loop, bind_of_ok hasks]
      rfl
  | succ rounds =>
      rw [loop, bind_of_ok hasks]
      rfl

theorem loop_succ_of_on (hon : goesOn c = true) (rounds : Nat) (a : α) :
    loop goesOn round beyond (rounds + 1) a c =
      (round a >>= loop goesOn round beyond rounds) c := by
  have hasks : asks goesOn c = .ok true c := asks_eq_ok_iff.mpr ⟨hon, rfl⟩
  rw [loop, bind_of_ok hasks]
  rfl

/-- A loop that is just left after its last round. -/
theorem loop_zero_of_pure (a : α) : loop goesOn round pure 0 a c = .ok a c := by
  cases hon : goesOn c with
  | false => exact loop_of_done hon 0 a
  | true =>
      have hasks : asks goesOn c = .ok true c := asks_eq_ok_iff.mpr ⟨hon, rfl⟩
      rw [loop, bind_of_ok hasks]
      rfl

/-- If something becomes less in each round, as many rounds are enough. -/
theorem loop_congr {left : Cursor → Nat} (hleft : ∀ {c : Cursor}, goesOn c = true → left c ≠ 0)
    (hround : ∀ {a next : α} {c c' : Cursor}, c.Coherent → goesOn c = true →
      round a c = .ok next c' → c'.Coherent ∧ left c' < left c)
    {rounds rounds' : Nat} (hc : c.Coherent) (hrounds : left c ≤ rounds)
    (hrounds' : left c ≤ rounds') (a : α) :
    loop goesOn round beyond rounds a c = loop goesOn round beyond' rounds' a c := by
  induction rounds generalizing rounds' c a with
  | zero =>
      -- Nothing is left, so the loop does not go on, and what stands beyond is not reached.
      have hdone : goesOn c = false :=
        Bool.eq_false_iff.mpr fun hon => hleft hon (Nat.le_zero.mp hrounds)
      rw [loop_of_done hdone, loop_of_done hdone]
  | succ rounds ih =>
      cases hon : goesOn c with
      | false => rw [loop_of_done hon, loop_of_done hon]
      | true =>
          have hleft := hleft hon
          obtain ⟨more, rfl⟩ : ∃ more, rounds' = more + 1 := ⟨rounds' - 1, by omega⟩
          rw [loop_succ_of_on hon, loop_succ_of_on hon]
          refine bind_congr_of_ok rfl fun next c₁ hok => ?_
          obtain ⟨hc₁, hless⟩ := hround hc hon hok
          exact ih hc₁ (by omega) (by omega) next

end

/-! ### What is left in an envelope -/

/-- The elements left in the innermost frame, or the bytes left if there is none. -/
def skipsLeft (c : Cursor) : Nat :=
  if c.frames.isEmpty then c.size - c.position else c.remaining

/-- A cursor on which skipping goes on has something left to skip. -/
theorem skipsLeft_ne_zero (h : decide (0 < c.remaining) = true) : c.skipsLeft ≠ 0 := by
  have hremaining := of_decide_eq_true h
  cases hframes : c.frames with
  | nil =>
      simp only [remaining, hframes, atEnd, decide_eq_true_eq] at hremaining
      simp only [skipsLeft, hframes, List.isEmpty_nil, if_true]
      split at hremaining <;> omega
  | cons frame outer =>
      simp only [skipsLeft, hframes, List.isEmpty_cons, Bool.false_eq_true, if_false]
      omega

/-- A value that is skipped is an element of the frame, and some of the bytes. -/
theorem skipsLeft_lt (hc : c.Coherent) (hon : decide (0 < c.remaining) = true)
    (h : skip c = .ok () c') : c'.Coherent ∧ c'.skipsLeft < c.skipsLeft := by
  obtain ⟨bs, hextent, hpasses⟩ := passes_of_skip hc h
  have hbytes := bytesLeft_lt_of_passes hc hpasses hextent.ne_nil
  have hremaining := of_decide_eq_true hon
  refine ⟨hpasses.coherent hc, ?_⟩
  have hframes : c'.frames = claimAll 1 c.frames := by rw [hpasses.2, past_frames]
  cases hcons : c.frames with
  | nil =>
      rw [hcons] at hframes
      simp only [skipsLeft, hframes, hcons, claimAll_nil, List.isEmpty_nil, if_true]
      exact hbytes
  | cons frame outer =>
      rw [hcons, claimAll_cons] at hframes
      simp only [remaining, hcons] at hremaining
      simp only [skipsLeft, hframes, hcons, remaining, List.isEmpty_cons, Bool.false_eq_true,
        if_false]
      omega

/-- Skipping is done in rounds. -/
theorem skipUpTo_eq_loop (steps : Nat) (c : Cursor) :
    skipUpTo steps c =
      loop (fun c => decide (0 < c.remaining)) (fun _ => skip) pure steps () c := by
  induction steps generalizing c with
  | zero => exact (loop_zero_of_pure ()).symm
  | succ steps ih =>
      have hasks : asks Cursor.remaining c = .ok c.remaining c := rfl
      rw [skipUpTo, bind_of_ok hasks]
      cases hon : decide (0 < c.remaining) with
      | false =>
          have hnone := Nat.eq_zero_of_not_pos (of_decide_eq_false hon)
          rw [loop_of_done hon, if_pos hnone]
          rfl
      | true =>
          have hsome := Nat.ne_of_gt (of_decide_eq_true hon)
          rw [loop_succ_of_on hon, if_neg hsome]
          exact bind_congr_of_ok rfl fun _ c₁ _ => ih c₁

/-- What is left in an envelope is skipped in so many rounds as there are elements or bytes. -/
theorem skipRemaining_eq_loop (hc : c.Coherent) (beyond : Unit → Decoding Unit) {rounds : Nat}
    (hrounds : c.skipsLeft ≤ rounds) :
    loop (fun c => decide (0 < c.remaining)) (fun _ => skip) beyond rounds () c =
      skipRemaining c := by
  have hwhole : skipRemaining c = skipUpTo c.skipsLeft c := rfl
  rw [hwhole, skipUpTo_eq_loop]
  exact loop_congr skipsLeft_ne_zero (fun hc hon h => skipsLeft_lt hc hon h) hc hrounds
    (Nat.le_refl _) ()

end Cursor

/-! ### The values of a stream -/

namespace Outline

/-- Outline the next value and put it in front of the earlier ones. -/
def another (done : List Node) : Decoding (List Node) := do return (← value) :: done

/-- Values are outlined in rounds, and the latest comes first until all are there. -/
theorem valuesUpTo_eq_loop (steps : Nat) (done : List Node) (c : Cursor) :
    valuesUpTo steps done c =
      (List.reverse <$> loop (fun c => !c.atEnd) another pure steps done) c := by
  induction steps generalizing done c with
  | zero => exact (map_eq_ok_iff.mpr ⟨done, loop_zero_of_pure done, rfl⟩).symm
  | succ steps ih =>
      have hasks : asks Cursor.atEnd c = .ok c.atEnd c := rfl
      rw [valuesUpTo, bind_of_ok hasks]
      cases hend : c.atEnd with
      | true =>
          have hdone : (!c.atEnd) = false := by rw [hend, Bool.not_true]
          exact (map_eq_ok_iff.mpr ⟨done, loop_of_done hdone _ done, rfl⟩).symm
      | false =>
          have hon : (!c.atEnd) = true := by rw [hend, Bool.not_false]
          have hround : loop (fun c => !c.atEnd) another pure (steps + 1) done c =
              (another done >>= loop (fun c => !c.atEnd) another pure steps) c :=
            loop_succ_of_on hon steps done
          have hreversed : (List.reverse <$> loop (fun c => !c.atEnd) another pure (steps + 1) done) c =
              (List.reverse <$> (another done >>= loop (fun c => !c.atEnd) another pure steps)) c := by
            simp only [Functor.map, EStateM.map, hround]
          rw [hreversed, map_bind, another, bind_assoc]
          simp only [Bool.false_eq_true, if_false, pure_bind]
          exact bind_congr_of_ok rfl fun node c₁ _ => ih (node :: done) c₁

/-- An outline takes some of the bytes that are left. -/
theorem bytesLeft_lt {done next : List Node} (hc : c.Coherent) (h : another done c = .ok next c') :
    c'.Coherent ∧ c'.size - c'.position < c.size - c.position := by
  obtain ⟨node, c₁, hvalue, h⟩ := bind_eq_ok_iff.mp h
  obtain ⟨-, rfl⟩ := pure_eq_ok_iff.mp h
  obtain ⟨bs, _, hne, hpasses, -⟩ :=
    ReadsValue.outline.skip_of_ok (.empty Settings.standard) hc hvalue
  exact ⟨hpasses.coherent hc, bytesLeft_lt_of_passes hc hpasses hne⟩

/-- The values of a stream are outlined in no more rounds than there are bytes left. -/
theorem loop_eq_valuesUpTo (hc : c.Coherent) (beyond : List Node → Decoding (List Node))
    {rounds : Nat} (hrounds : c.size - c.position ≤ rounds) :
    (List.reverse <$> loop (fun c => !c.atEnd) another beyond rounds []) c =
      valuesUpTo (c.size - c.position) [] c := by
  have hbytes : ∀ {c : Cursor}, (!c.atEnd) = true → c.size - c.position ≠ 0 := by
    intro c hon
    simp only [atEnd, Bool.not_eq_true', decide_eq_false_iff_not] at hon
    omega
  have hloop : loop (fun c => !c.atEnd) another beyond rounds [] c =
      loop (fun c => !c.atEnd) another pure (c.size - c.position) [] c :=
    loop_congr hbytes (fun hc _ h => bytesLeft_lt hc h) hc hrounds (Nat.le_refl _) []
  rw [valuesUpTo_eq_loop]
  simp only [Functor.map, EStateM.map, hloop]

/-- Without a format code in front, an outline is what skipping is: a failure. -/
theorem nodeWith_of_unrecognised (h : c.peekFormat? = none) {e : DecodeError}
    (hskip : skip c = .error e c') (inner : Decoding Node) : nodeWith inner c = .error e c' := by
  have hposition : asks Cursor.position c = .ok c.position c := rfl
  have hformat : asks Cursor.peekFormat? c = .ok none c := asks_eq_ok_iff.mpr ⟨h, rfl⟩
  rw [nodeWith, bind_of_ok hposition, bind_of_ok hformat]
  simp only [bind, EStateM.bind, hskip]

end Outline

/-! ## Everything ends -/

/-- What reads values at a cursor comes to an end, and how soon. -/
structure WalksEnd (registry : Registry) (bytes : Bytes) (limits : Limits) (c : Cursor) :
    Prop where
  /-- A value that is read takes at least one byte. -/
  skip_moves : ∀ {c' : Cursor}, skip c = .ok () c' → c.position < c'.position
  outline_moves : ∀ {node : Node} {c' : Cursor}, Outline.value c = .ok node c' →
    c.position < c'.position
  kind_moves : ∀ {k : Kind} {value : Known} {c' : Cursor},
    registry.decodeKind k c = .ok value c' → c.position < c'.position
  slot_moves : ∀ {value : Value} {c' : Cursor}, registry.decodeSlot c = .ok value c' →
    c.position < c'.position
  /-- Where an outline skips because it knows no format, it fails. -/
  unrecognised_fails : c.peekFormat? = none → ∃ e c', skip c = .error e c' ∧
    ∀ inner, Outline.nodeWith inner c = .error e c'
  /-- The outlines of all values take no more rounds than there are bytes left. -/
  outline_rounds : ∀ (beyond : List Node → Decoding (List Node)) {rounds : Nat},
    bytes.length - c.position ≤ rounds →
      (List.reverse <$> loop (fun c => !c.atEnd) Outline.another beyond rounds []) c =
        Outline.valuesUpTo (c.size - c.position) [] c
  /-- What is left in an envelope takes no more rounds than there are elements left in the
  innermost frame, or bytes left if no frame is open. -/
  envelope_rounds : ∀ (beyond : Unit → Decoding Unit) {rounds : Nat},
    (if c.frames.isEmpty then bytes.length - c.position else c.remaining) ≤ rounds →
      (do loop (fun c => decide (0 < c.remaining)) (fun _ => skip) beyond rounds ()
          exitComposite : Decoding Unit) c = exitEnvelope c
  /-- No reader makes more calls within each other than frames may be opened and one more. -/
  skip_calls : ∀ (beyond : Nat → Decoding Unit) {n : Nat}, limits.maxDepth - c.depth + 1 ≤ n →
    (do claim "value"; let c ← get; (skipStep^[n] beyond) c.depth : Decoding Unit) c = skip c
  outline_calls : ∀ (beyond : Decoding Node) {n : Nat}, limits.maxDepth - c.depth + 1 ≤ n →
    (Outline.nodeWith^[n] beyond) c = Outline.value c
  slot_calls : ∀ (beyond : Decoding Value) {n : Nat}, limits.maxDepth - c.depth + 1 ≤ n →
    ((Decode.slotStep registry)^[n] beyond) c = registry.decodeSlot c

/-- **Every walk makes progress and ends.**  At every reachable cursor, whatever the bytes, the
limits and the declared types are, a value that is read takes at least one byte; so the loops
over values end within as many rounds as bytes or elements are left, and the readers that call
themselves for inner values do so no deeper than frames may be open. -/
theorem Cursor.Reachable.walks_end {registry : Registry} (hregistry : registry.Declared)
    {bytes : Bytes} {limits : Limits} (hc : Reachable bytes limits c) :
    WalksEnd registry bytes limits c := by
  have hcoherent := hc.coherent
  have hsize := hc.size_eq
  obtain rfl := hc.limits_eq
  refine ⟨position_lt_of_skip hcoherent, ReadsValue.outline.position_lt hregistry hcoherent,
    (ReadsValue.kind _).position_lt hregistry hcoherent,
    ReadsValue.slot.position_lt hregistry hcoherent, ?_, ?_, ?_,
    fun beyond _ => skip_eq_iterate hcoherent beyond,
    fun beyond _ => Outline.value_eq_iterate hcoherent beyond,
    fun beyond _ => Decode.decodeSlot_eq_iterate hregistry hcoherent beyond⟩
  · intro hnone
    obtain ⟨e, c', hskip⟩ := skip_of_unrecognised hcoherent hnone
    exact ⟨e, c', hskip, Outline.nodeWith_of_unrecognised hnone hskip⟩
  · intro beyond rounds hrounds
    exact Outline.loop_eq_valuesUpTo hcoherent beyond (hsize ▸ hrounds)
  · intro beyond rounds hrounds
    rw [← hsize] at hrounds
    exact bind_congr_of_ok (skipRemaining_eq_loop hcoherent beyond hrounds) fun _ _ _ => rfl

/-- A type that has a slot for a value of its own. -/
private def linkType : RecordType := ⟨"Link", "example:Link", [⟨"next", .slot⟩], false⟩

/-- Links by a numeric descriptor. -/
private def links : Registry :=
  ((Registry.empty Settings.standard).registerAlias (.record linkType) (.code 7)).2

/-- A link to a link to null. -/
private def twoLinks : Bytes :=
  [0x00, 0x53, 0x07, 0xc0, 0x08, 0x01, 0x00, 0x53, 0x07, 0xc0, 0x02, 0x01, 0x40]

/-- A value in its own slot is decoded to the last byte, with just as many frames allowed as it
opens: the slots in each other are found by unfolding the step, whatever stands beyond. -/
theorem two_links_walked :
    WalksEnd links twoLinks ⟨4, 1⟩ (Cursor.start twoLinks ⟨4, 1⟩) ∧
      ∃ value after, links.decodeSlot (Cursor.start twoLinks ⟨4, 1⟩) = .ok value after ∧
        after.position = 13 := by
  have hends : WalksEnd links twoLinks ⟨4, 1⟩ (Cursor.start twoLinks ⟨4, 1⟩) :=
    Cursor.Reachable.walks_end (.further _ (.code 7) (.empty Settings.standard)) .start
  refine ⟨hends, ?_⟩
  have hrun : (match ((Decode.slotStep links)^[5] (throw (.mismatch .selfReference 0)))
      (Cursor.start twoLinks ⟨4, 1⟩) with
    | .ok _ after => after.position
    | .error _ _ => 0) = 13 := by decide +kernel
  rw [hends.slot_calls _ (by decide)] at hrun
  cases hslot : links.decodeSlot (Cursor.start twoLinks ⟨4, 1⟩) with
  | ok value after =>
      rw [hslot] at hrun
      exact ⟨value, after, rfl, hrun⟩
  | error e after =>
      rw [hslot] at hrun
      cases hrun

end AmqpEnvelope
