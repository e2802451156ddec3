import AmqpEnvelope.Proofs.Framing.Root
import AmqpEnvelope.Proofs.Lockstep.Decode

/-!
# Streams in step

Two inputs that are the same to their end have the same preamble, the same envelope and the
same rest, so two walks over them are in step from the start of a stream to its end, if the
readers of the root value are.

Where the root value stands comes out on the way only.  The mark says nothing on which cursors
are abreast, so the ground up to the root and the one from there on differ in the root alone
(`Ground.withRoot`).
-/

namespace AmqpEnvelope

open Cursor

/-! ## Roots of a ground -/

/-- The ground with another slot marked as the root. -/
def Ground.withRoot (g : Ground) (root : Option (Nat × Nat)) : Ground := { g with root := root }

section

variable {α β : Type} {g : Ground} {k m n : Nat} {c c' : Cursor}

/-- Marking a slot moves to the ground on which it is the root. -/
theorem Abreast.marked (h : Abreast g c c') :
    Abreast (g.withRoot c.marked.root) c.marked c'.marked :=
  { h with
    coherent := h.coherent.marked
    coherent' := h.coherent'.marked
    root_eq := by
      unfold Cursor.marked
      rw [h.depth_eq, h.position_eq] }

theorem Ground.Level.marked (h : g.Level n c) : (g.withRoot c.marked.root).Level n c.marked :=
  { h with root_eq := rfl }

theorem Abreast.sizes_eq (h : Abreast g c c') (hsizes : g.size' = g.size) : c'.size = c.size := by
  rw [h.size_eq, h.size_eq', hsizes]

theorem Abreast.atEnd_eq (h : Abreast g c c') (hsizes : g.size' = g.size) :
    c'.atEnd = c.atEnd := by
  rw [atEnd, atEnd, h.sizes_eq hsizes, h.position_eq]

theorem Abreast.remaining_eq (h : Abreast g c c') (hsizes : g.size' = g.size) :
    c'.remaining = c.remaining := by
  rw [remaining, remaining, h.frames_eq, h.atEnd_eq hsizes]

/-- Two outcomes agree, whichever slot was marked as the root in the end. -/
def AgreeForRoot (g : Ground) (n : Nat) (r r' : EStateM.Result DecodeError Cursor α) : Prop :=
  ∃ root, Agree (g.withRoot root) n r r'

theorem Agree.bind_forRoot {reader reader' : Decoding α} {next next' : α → Decoding β}
    (hreader : Agree g k (reader c) (reader' c'))
    (hnext : ∀ a c₁ c₁', Abreast g c₁ c₁' → g.Level k c₁ →
      AgreeForRoot g n (next a c₁) (next' a c₁')) :
    AgreeForRoot g n ((reader >>= next) c) ((reader' >>= next') c') := by
  simp only [Bind.bind, EStateM.bind]
  generalize reader c = first at hreader
  generalize reader' c' = second at hreader
  cases hreader with
  | ok a h hlevel => exact hnext a _ _ h hlevel
  | error e hfault h => exact ⟨g.root, .error e hfault h⟩
  | cut e hlimit hlimits => exact ⟨g.root, .cut e hlimit hlimits⟩

theorem AgreeForRoot.get {next next' : Cursor → Decoding β}
    (hnext : AgreeForRoot g n (next c c) (next' c' c')) :
    AgreeForRoot g n (((get : Decoding Cursor) >>= next) c)
      (((get : Decoding Cursor) >>= next') c') := hnext

end

namespace Cursor

variable {α : Type} {g : Ground} {n : Nat} {c c' : Cursor} {reader reader' : Decoding α}

/-! ## Preambles -/

theorem inStep_strip (hwhole : g.Whole) (expected : Bytes) :
    InStep g n n (strip expected) (strip expected) := by
  intro c c' h hlevel
  unfold strip
  rw [h.frames_eq, h.unread_eq hwhole]
  by_cases hstrip : (c.frames.isEmpty && expected.isPrefixOf c.unread) = true
  · rw [if_pos hstrip, if_pos hstrip]
    obtain ⟨hframes, hfront⟩ := Bool.and_eq_true_iff.mp hstrip
    have hlength := (List.isPrefixOf_iff_prefix.mp hfront).length_le
    have hframes := List.isEmpty_iff.mp hframes
    refine .ok _ (h.advance ((Move.strip _ hframes hlength).coherent h.coherent) ?_)
      (hlevel.advance _)
    exact (Move.strip _ (h.frames_eq.trans hframes)
      (h.unread_eq hwhole ▸ hlength)).coherent h.coherent'
  · rw [if_neg hstrip, if_neg hstrip]
    exact .ok _ h hlevel

theorem rawByte_eq (what : String) (c : Cursor) :
    rawByte what c =
      if 1 ≤ c.available then .ok ((c.unread.take 1).headD 0) (c.advance 1)
      else .error (.mismatch (.truncated what 1 c.available) c.position) c := by
  simp only [rawByte, take, bind, EStateM.bind]
  by_cases hfits : 1 ≤ c.available
  · rw [if_pos hfits, if_pos hfits]
    rfl
  · rw [if_neg hfits, if_neg hfits]

theorem inStep_rawByte (what : String) : InStep g n n (rawByte what) (rawByte what) :=
  (inStep_take 1 what).bind fun _ => .pure _

theorem inStep_sectionNumber : InStep g n n sectionNumber sectionNumber := by
  intro c c' h hlevel
  unfold sectionNumber
  rw [rawByte_eq, rawByte_eq, h.available_eq hlevel]
  by_cases hfits : 1 ≤ c.available
  · rw [if_pos hfits, if_pos hfits, h.take_eq hlevel hfits]
    dsimp only
    split
    · exact .ok _ (h.pass hlevel hfits) (hlevel.advance 1)
    · rw [h.position_eq]
      exact .error _ (h.fault hlevel rfl rfl) (h.pass hlevel hfits)
  · rw [if_neg hfits, if_neg hfits]
    dsimp only
    rw [h.position_eq]
    exact .error _ (h.fault hlevel rfl rfl) h

theorem inStep_readPreamble (framing : Framing) (hwhole : g.Whole) :
    InStep g n n (readPreamble framing) (readPreamble framing) := by
  intro c c' h hlevel
  refine .get ?_
  rw [h.unread_eq hwhole, h.position_eq]
  have hcovers := h.covers_position hlevel
  have hrefused : ∀ fault, InStep g n n
      (throw (.invalidPreamble fault c.position) : Decoding Bool)
      (throw (.invalidPreamble fault c.position)) :=
    fun fault => .throw (g.fault_of _ rfl hcovers.1 hcovers.2)
  refine (inStep_strip hwhole _).bind (fun found => ?_) h hlevel
  split
  · exact inStep_sectionNumber.bind fun _ => .pure true
  · split
    · exact hrefused _
    · split
      · exact hrefused _
      · exact .pure false

/-! ## Envelopes -/

theorem inStep_skipUpTo (hsizes : g.size' = g.size) (steps : Nat) :
    InStep g n n (skipUpTo steps) (skipUpTo steps) := by
  induction steps with
  | zero => exact .pure ()
  | succ steps ih =>
      intro c c' h hlevel
      refine .asks ?_
      rw [h.remaining_eq hsizes]
      split
      · exact .ok () h hlevel
      · exact inStep_skip.bind (fun _ => ih) h hlevel

theorem inStep_skipRemaining (hsizes : g.size' = g.size) :
    InStep g n n skipRemaining skipRemaining := by
  intro c c' h hlevel
  refine .get ?_
  rw [h.remaining_eq hsizes, h.frames_eq, h.position_eq, h.sizes_eq hsizes]
  exact inStep_skipUpTo hsizes _ h hlevel

theorem inStep_exitEnvelope (hsizes : g.size' = g.size) (hn : g.around.length ≤ n) :
    InStep g (n + 2) n exitEnvelope exitEnvelope :=
  (inStep_skipRemaining hsizes).bind fun _ => inStep_exitComposite hn

/-! ## Root values -/

theorem agree_atRoot (hwhole : g.Whole) (enveloped : Bool) (h : Abreast g c c')
    (hlevel : g.Level (if enveloped then n + 2 else n) c) (hn : g.around.length ≤ n)
    (hreader : ∀ root m, InStep (g.withRoot root) m m reader reader') :
    AgreeForRoot g n (atRoot enveloped reader c) (atRoot enveloped reader' c') := by
  refine ⟨c.marked.root, ?_⟩
  cases enveloped with
  | false =>
      rw [atRoot_false, atRoot_false]
      exact hreader _ n h.marked hlevel.marked
  | true =>
      rw [atRoot_true, atRoot_true]
      have hexit : InStep (g.withRoot c.marked.root) (n + 2) n exitEnvelope exitEnvelope :=
        inStep_exitEnvelope hwhole.1 hn
      exact ((hreader _ (n + 2)).bind fun _ => hexit.bind fun _ => .pure _) h.marked hlevel.marked

theorem agree_framed (framing : Framing) (hwhole : g.Whole) (h : Abreast g c c')
    (hlevel : g.Level n c)
    (hreader : ∀ root m, InStep (g.withRoot root) m m reader reader') :
    AgreeForRoot g n (framed framing reader c) (framed framing reader' c') := by
  have hn := hlevel.around_length_le
  unfold framed unwrap
  by_cases hunwrap : framing.unwrapEnvelope = true
  case neg =>
    rw [if_neg hunwrap]
    exact agree_atRoot hwhole false h hlevel hn hreader
  rw [if_pos hunwrap, enterEnvelope, bind_assoc, bind_assoc]
  refine (inStep_peekDescriptor h hlevel).bind_forRoot fun found c₁ c₁' h₁ hlevel₁ => ?_
  by_cases hfound : found = some envelopeDescriptor
  case neg =>
    simp only [if_neg hfound]
    exact agree_atRoot hwhole false h₁ hlevel₁ hn hreader
  -- In an envelope, the root stands two levels deeper.
  simp only [if_pos hfound, bind_assoc]
  refine (inStep_enterComposite h₁ hlevel₁).bind_forRoot fun _ c₂ c₂' h₂ hlevel₂ => ?_
  refine .get ?_
  rw [h₂.remaining_eq hwhole.1, h₂.position_eq]
  split
  · exact ⟨g.root, .error _ (h₂.fault hlevel₂ rfl rfl) h₂⟩
  · exact agree_atRoot hwhole true h₂ hlevel₂ hn hreader

theorem inStep_finish (hwhole : g.Whole) (value : α) :
    InStep g n n (finish value) (finish value) := by
  intro c c' h hlevel
  rw [finish_eq, finish_eq, h.atEnd_eq hwhole.1, h.unread_eq hwhole, h.position_eq]
  split
  · exact .ok _ h hlevel
  · exact .error _ (h.fault hlevel rfl rfl) h

/-- **Streams are in step**, from the preamble to the end, if the readers of the root value
are, wherever that stands. -/
theorem agree_rootValue (framing : Framing) (hwhole : g.Whole) (h : Abreast g c c')
    (hlevel : g.Level n c)
    (hreader : ∀ root m, InStep (g.withRoot root) m m reader reader') :
    AgreeForRoot g n (rootValue framing reader c) (rootValue framing reader' c') := by
  rw [rootValue_eq, rootValue_eq]
  refine (inStep_readPreamble framing hwhole h hlevel).bind_forRoot fun _ c₁ c₁' h₁ hlevel₁ => ?_
  obtain ⟨root, hframed⟩ := agree_framed framing hwhole h₁ hlevel₁ hreader
  have hfinish : ∀ value : α, InStep (g.withRoot root) n n (finish value) (finish value) :=
    inStep_finish hwhole
  exact ⟨root, hframed.bind fun value _ _ _ h₂ hlevel₂ => hfinish value h₂ hlevel₂⟩

end Cursor

end AmqpEnvelope
