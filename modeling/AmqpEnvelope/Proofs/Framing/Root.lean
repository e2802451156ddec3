import AmqpEnvelope.Proofs.Framing.Start
import AmqpEnvelope.Proofs.Framing.Streams
import AmqpEnvelope.Proofs.Written.Row

/-!
# Root values

What stands around the root value is read without a look at the value.  If the root value
follows a grammar, then a stream is accepted exactly when its object is of the grammar: as it
stands (`Before.exists_framed_iff_of_bare`), in an envelope with other values behind it
(`Before.exists_framed_iff_of_envelope`), and with a preamble in front of either
(`exists_rootValue_iff`).
-/

namespace AmqpEnvelope

open Cursor Written

namespace Written

/-- An envelope around the given values, the first of which is the object. -/
def EnvelopeOf (cap : Nat) (items : List Bytes) (bytes : Bytes) : Prop :=
  ∃ list, Described (.code 0xc562000000000001) list bytes ∧ ListOf cap items list

/-- The bytes themselves, or with a preamble in front of them. -/
def Prefaced (bytes stream : Bytes) : Prop :=
  stream = bytes ∨ stream = streamMagic ++ dataSection :: bytes

end Written

/-! ## Descriptors in front -/

theorem headed_iff {d : Descriptor} {bytes : Bytes} :
    Headed d bytes ↔ ∃ raw body, Described raw body bytes ∧ raw.descriptor = d := by
  constructor
  · rintro ⟨head, raw, body, rfl, hraw, rfl⟩
    exact ⟨raw, body, ⟨head, rfl, (Grammar.descriptor_written_iff.mp (hraw ⟨0, 0⟩)).2⟩, rfl⟩
  · rintro ⟨raw, body, ⟨head, rfl, hraw⟩, rfl⟩
    exact ⟨head, raw, body, rfl, fun _ => Grammar.descriptor_written_iff.mpr ⟨rfl, hraw⟩, rfl⟩

/-- A name is no number. -/
theorem Descriptor.ofWireSymbol_ne_code (name : String) (value : UInt64) :
    Descriptor.ofWireSymbol name ≠ .code value := by
  unfold Descriptor.ofWireSymbol
  split
  · split
    · exact Descriptor.noConfusion
    · exact Descriptor.noConfusion
  · exact Descriptor.noConfusion

/-- Only a number is the descriptor of an envelope. -/
theorem RawDescriptor.eq_of_envelope {raw : RawDescriptor}
    (h : raw.descriptor = envelopeDescriptor) : raw = .code 0xc562000000000001 := by
  cases raw with
  | symbol name => exact absurd h (Descriptor.ofWireSymbol_ne_code name _)
  | code value =>
      cases h
      rfl

theorem headed_envelope_iff {bytes : Bytes} : Headed envelopeDescriptor bytes ↔
    ∃ body, Described (.code 0xc562000000000001) body bytes := by
  rw [headed_iff]
  constructor
  · rintro ⟨raw, body, hdescribed, hraw⟩
    obtain rfl := RawDescriptor.eq_of_envelope hraw
    exact ⟨body, hdescribed⟩
  · rintro ⟨body, hdescribed⟩
    exact ⟨_, body, hdescribed, rfl⟩

/-- A value of the grammar is not described, or its descriptor can be read in front. -/
def Shows {α : Type} (g : Grammar α) : Prop :=
  ∀ ⦃bounds : Limits⦄ ⦃n : Nat⦄ ⦃bs : Bytes⦄ ⦃value : α⦄, g bounds n bs value →
    bs.head? ≠ some FormatCode.described.toByte ∨ ∃ d, Headed d bs

namespace Shows

variable {α β : Type}

theorem map (f : α → β) {g : Grammar α} (hg : Shows g) : Shows (f <$> g) := by
  intro bounds n bs value h
  obtain ⟨a, ha, -⟩ := Grammar.map_iff.mp h
  exact hg ha

theorem described (body : RawDescriptor → Grammar α) : Shows (Grammar.described body) :=
  fun _ _ _ _ h => .inr (headed_of_described h)

theorem typed (registry : Registry) (k : Kind) (fields : Grammar α) :
    Shows (Grammar.typed registry k fields) :=
  described _

theorem kind (registry : Registry) (slots : Grammar Value) (k : Kind) :
    Shows (Grammar.kind registry slots k) := by
  unfold Grammar.kind
  cases hk : k.entry with
  | dispatched => exact described _
  | selfDescribing =>
      cases k with
      | publicKey => exact ((described _).map PublicKey.mk).map Known.publicKey
      | throwable => exact fun _ _ _ _ h => h.elim
      | _ => cases hk

theorem slot (registry : Registry) (levels : Nat) (root : Bool) :
    Shows (Grammar.slot registry levels root) := by
  intro bounds n bs value h
  cases levels with
  | zero => exact h.elim
  | succ levels =>
      change Grammar.nullOr _ _ bounds n bs value at h
      unfold Grammar.nullOr at h
      split at h
      next hnull =>
        rw [hnull]
        exact .inl (by decide)
      next =>
        obtain ⟨d, hd, -⟩ := h
        exact .inr ⟨d, hd⟩

theorem target (registry : Registry) (levels : Nat) (root : Bool) (t : Target) :
    Shows (Grammar.target registry levels root t) := by
  cases t with
  | slot => exact slot registry levels root
  | kind k => exact kind registry _ k

end Shows

/-! ## In front of the object -/

/-- Nothing is open, and these bytes are all that is left. -/
structure Before (limits : Limits) (bytes : Bytes) (c : Cursor) : Prop where
  coherent : c.Coherent
  frames_eq : c.frames = []
  unread_eq : c.unread = bytes
  limits_eq : c.limits = limits

/-- The cursor with its slot marked as the root. -/
def Cursor.marked (c : Cursor) : Cursor := { c with root := some (c.depth, c.position) }

/-- A reader follows a grammar in the root slot, wherever just these bounds are left. -/
def ReadsRoot {α : Type} (bounds : Limits) (reader : Decoding α) (g : Grammar α) : Prop :=
  ∀ ⦃c : Cursor⦄, c.Coherent → c.atRootSlot = true → c.allowance = bounds → ReadsAt c reader g

theorem readsRoot_target {registry : Registry} (hregistry : registry.Declared) {bounds : Limits}
    {levels : Nat} (hlevels : bounds.maxDepth < levels) (t : Target) :
    ReadsRoot bounds (registry.decodeTarget t) (Grammar.target registry levels true t) := by
  rintro c hc hroot rfl
  have hreads := readsAt_target hregistry hc hlevels t
  rwa [hroot] at hreads

theorem before_start (bytes : Bytes) (limits : Limits) :
    Before limits bytes (Cursor.start bytes limits) :=
  ⟨start_coherent bytes limits, rfl, rfl, rfl⟩

section

variable {α : Type} {limits bounds : Limits} {framing : Framing} {reader : Decoding α}
  {g : Grammar α} {value : α} {bytes object : Bytes} {sections : List Bytes} {c c' : Cursor}

theorem atRoot_false (reader : Decoding α) (c : Cursor) :
    atRoot false reader c = reader c.marked := by
  have hmark : markRoot c = .ok () c.marked := rfl
  have hbind : atRoot false reader = markRoot >>= fun _ => reader := by simp [atRoot]
  rw [hbind, bind_of_ok hmark]

theorem atRoot_true (reader : Decoding α) (c : Cursor) : atRoot true reader c =
    (do let value ← reader; exitEnvelope; return value) c.marked := by
  have hmark : markRoot c = .ok () c.marked := rfl
  rw [atRoot, bind_of_ok hmark]
  rfl

theorem Cursor.Coherent.marked (hc : c.Coherent) : c.marked.Coherent := Move.mark.coherent hc

theorem atRootSlot_marked (c : Cursor) : c.marked.atRootSlot = true := beq_self_eq_true _

namespace Before

theorem allowance_eq (h : Before limits bytes c) : c.allowance = limits := by
  simp only [allowance, depth, h.frames_eq, h.limits_eq, List.length_nil, Nat.sub_zero]

theorem marked (h : Before limits bytes c) : Before limits bytes c.marked :=
  ⟨h.coherent.marked, h.frames_eq, h.unread_eq, h.limits_eq⟩

theorem offers (h : Before limits bytes c) (n : Nat) : c.Offers n bytes :=
  Offers.of_no_frames h.coherent h.frames_eq (h.unread_eq ▸ List.prefix_rfl) n

/-- There is one descriptor in front. -/
theorem headed_unique (h : Before limits bytes c) {d d' : Descriptor} (hd : Headed d bytes)
    (hd' : Headed d' bytes) : d = d' := by
  have hpeek := peekDescriptor_eq_ok h.coherent (h.offers 1) hd
  rw [peekDescriptor_eq_ok h.coherent (h.offers 1) hd'] at hpeek
  cases hpeek
  rfl

/-! ### Preambles -/

theorem readPreamble_of_preface (h : Before limits (streamMagic ++ dataSection :: bytes) c)
    (framing : Framing) :
    ∃ c₁, readPreamble framing c = .ok true c₁ ∧ Before limits bytes c₁ := by
  have hmagic : streamMagic <+: c.unread := h.unread_eq ▸ List.prefix_append _ _
  obtain ⟨hc₁, hunread₁⟩ := advance_coherent h.coherent h.frames_eq h.unread_eq
  have hsection : (c.advance streamMagic.length).unread = [dataSection] ++ bytes := hunread₁
  obtain ⟨hc₂, hunread₂⟩ := advance_coherent hc₁ h.frames_eq hsection
  have hbyte : rawByte "section id" (c.advance streamMagic.length) =
      .ok dataSection ((c.advance streamMagic.length).advance 1) :=
    (rawByte_eq_ok_iff hc₁ h.frames_eq).mpr ⟨by rw [hunread₁, List.head?_cons], rfl⟩
  refine ⟨_, ?_, hc₂, h.frames_eq, hunread₂, h.limits_eq⟩
  have hnumber : sectionNumber (c.advance streamMagic.length) =
      .ok () ((c.advance streamMagic.length).advance 1) := by
    simp only [sectionNumber, hbyte, if_true]
  rw [readPreamble_of_magic framing h.frames_eq hmagic, bind_of_ok hnumber]
  rfl

theorem readPreamble_of_stem (h : Before limits bytes c) (hstem : ¬ magicStem <+: bytes)
    (hrequire : framing.requirePreamble = false) : readPreamble framing c = .ok false c := by
  rw [← h.unread_eq] at hstem
  have hmagic : ¬ streamMagic <+: c.unread := fun hmagic =>
    hstem ((List.take_prefix 5 streamMagic).trans hmagic)
  rw [readPreamble_of_not_magic framing hmagic, if_neg hstem, hrequire]
  rfl

/-! ### Objects without an envelope -/

/-- A descriptor that is seen stands in front of what is left. -/
theorem headed_of_peekDescriptor (h : Before limits bytes c) {d : Descriptor}
    (hpeek : peekDescriptor c = .ok (some d) c') : Headed d bytes := by
  unfold peekDescriptor at hpeek
  by_cases hmarker : c.peekByte? = some FormatCode.described.toByte
  · rw [if_pos hmarker] at hpeek
    obtain ⟨havailable, hhead⟩ := available_pos_of_peekByte? hmarker
    obtain ⟨rest, hrest⟩ : ∃ rest, c.unread = [FormatCode.described.toByte] ++ rest :=
      List.head?_eq_some_iff.mp hhead
    obtain ⟨hc₁, hunread₁⟩ := advance_coherent h.coherent h.frames_eq hrest
    cases hraw : rawDescriptor (c.advance 1) with
    | error e c₁ =>
        rw [hraw] at hpeek
        cases hpeek
    | ok raw c₁ =>
        rw [hraw] at hpeek
        cases hpeek
        obtain ⟨_, head, hdescriptor, hpasses⟩ := (readsAt_rawDescriptor hc₁).sound hraw
        obtain ⟨rfl, -⟩ := Extent.of_descriptor hdescriptor 0
        have hfront : (c.advance 1).unread = head ++ c₁.unread := hpasses.unread_eq
        refine ⟨head, raw, c₁.unread, ?_, Grammar.descriptor_of_bounds hdescriptor, rfl⟩
        rw [← hfront, ← h.unread_eq, hrest]
        exact congrArg _ hunread₁.symm
  · rw [if_neg hmarker] at hpeek
    cases hpeek

/-- No envelope is found where there is none. -/
theorem unwrap_eq_ok (h : Before limits bytes c)
    (hbare : framing.unwrapEnvelope = true → ¬ Headed envelopeDescriptor bytes) {enveloped : Bool}
    (hunwrap : unwrap framing c = .ok enveloped c') : enveloped = false ∧ c' = c := by
  unfold unwrap at hunwrap
  by_cases hon : framing.unwrapEnvelope = true
  · rw [if_pos hon] at hunwrap
    obtain ⟨found, c₁, hpeek, hrest⟩ := bind_eq_ok_iff.mp hunwrap
    obtain rfl := peekDescriptor_stays hpeek
    by_cases hfound : found = some envelopeDescriptor
    · subst hfound
      exact absurd (h.headed_of_peekDescriptor hpeek) (hbare hon)
    · rw [if_neg hfound] at hrest
      obtain ⟨rfl, rfl⟩ := pure_eq_ok_iff.mp hrest
      exact ⟨rfl, rfl⟩
  · rw [if_neg hon] at hunwrap
    obtain ⟨rfl, rfl⟩ := pure_eq_ok_iff.mp hunwrap
    exact ⟨rfl, rfl⟩

/-- In front of a value that can be told apart, looking for an envelope succeeds. -/
theorem unwrap_of_shown (h : Before limits bytes c)
    (hbare : framing.unwrapEnvelope = true → ¬ Headed envelopeDescriptor bytes)
    (hne : bytes ≠ [])
    (hshown : bytes.head? ≠ some FormatCode.described.toByte ∨ ∃ d, Headed d bytes) :
    unwrap framing c = .ok false c := by
  unfold unwrap
  by_cases hon : framing.unwrapEnvelope = true
  · rw [if_pos hon, enterEnvelope]
    rcases hshown with hplain | ⟨d, hd⟩
    · have hbyte := (h.offers 1).peekByte?_eq hne
      have hpeek : peekDescriptor c = .ok none c := by
        rw [peekDescriptor, hbyte, if_neg hplain]
      rw [bind_of_ok hpeek]
      rfl
    · have hpeek := peekDescriptor_eq_ok h.coherent (h.offers 1) hd
      rw [bind_of_ok hpeek, if_neg]
      · rfl
      · intro hsame
        cases hsame
        exact hbare hon hd
  · rw [if_neg hon]
    rfl

/-- A stream without an envelope is accepted exactly if all of it is the value. -/
theorem exists_framed_iff_of_bare (h : Before limits bytes c) (hg : Spans g) (hshows : Shows g)
    (hroot : ReadsRoot limits reader g)
    (hbare : framing.unwrapEnvelope = true → ¬ Headed envelopeDescriptor bytes) :
    (∃ c', (framed framing reader >>= finish) c = .ok value c') ↔ g limits 1 bytes value := by
  have hreads : ReadsAt c.marked reader g :=
    hroot h.coherent.marked (atRootSlot_marked c) h.marked.allowance_eq
  constructor
  · rintro ⟨c', hok⟩
    obtain ⟨result, c₁, hframed, hfinish⟩ := bind_eq_ok_iff.mp hok
    obtain ⟨hend, rfl, rfl⟩ := finish_eq_ok_iff.mp hfinish
    obtain ⟨enveloped, c₂, hunwrap, hread⟩ := bind_eq_ok_iff.mp hframed
    obtain ⟨rfl, rfl⟩ := h.unwrap_eq_ok hbare hunwrap
    rw [atRoot_false] at hread
    obtain ⟨n, bs, hvalue, hpasses⟩ := hreads.sound hread
    obtain ⟨rfl, -⟩ := hg hvalue
    -- Nothing is left behind the value, so it is the whole of the bytes.
    have hnothing : c₁.unread = [] := (atEnd_iff (hpasses.coherent h.marked.coherent)).mp hend
    have hwhole := hpasses.unread_eq
    rw [hnothing, List.append_nil, h.marked.unread_eq] at hwhole
    rw [h.marked.allowance_eq, ← hwhole] at hvalue
    exact hvalue
  · intro hvalue
    obtain ⟨-, hextent⟩ := hg hvalue
    have hunwrap := h.unwrap_of_shown hbare hextent.ne_nil (hshows hvalue)
    have hbounds : limits ≤ c.marked.allowance := h.marked.allowance_eq ▸ Limits.le_refl _
    obtain ⟨c₁, hread, hpasses⟩ := hreads.complete hbounds hvalue (h.marked.offers 1)
    have hend : c₁.atEnd = true := by
      rw [atEnd_iff (hpasses.coherent h.marked.coherent), hpasses.2, past_unread,
        h.marked.unread_eq, List.drop_length]
    refine ⟨c₁, bind_eq_ok_iff.mpr ⟨value, c₁, ?_, finish_eq_ok_iff.mpr ⟨hend, rfl, rfl⟩⟩⟩
    rw [framed, bind_of_ok hunwrap, atRoot_false, hread]

end Before

/-! ## In an envelope -/

/-- The envelope is all that is left: so many of its values are done, and these are left. -/
structure InEnvelope (done : Nat) (left : List Bytes) (c : Cursor) : Prop where
  coherent : c.Coherent
  unread_eq : c.unread = left.flatten
  frames_eq : ∃ inner outer, c.frames =
    [⟨.list, inner, some c.size, done + left.length, done⟩, ⟨.described, outer, none, 1, 1⟩]

namespace InEnvelope

variable {done : Nat} {item : Bytes} {left : List Bytes}

theorem marked (h : InEnvelope done left c) : InEnvelope done left c.marked :=
  ⟨h.coherent.marked, h.unread_eq, h.frames_eq⟩

theorem frames_ne_nil (h : InEnvelope done left c) : c.frames ≠ [] := by
  obtain ⟨inner, outer, hframes⟩ := h.frames_eq
  rw [hframes]
  exact List.cons_ne_nil _ _

theorem allowance_eq (h : InEnvelope done left c) :
    c.allowance = ⟨c.limits.maxDepth - 2, c.limits.maxCollectionLength⟩ := by
  obtain ⟨inner, outer, hframes⟩ := h.frames_eq
  simp only [allowance, depth, hframes, List.length_cons, List.length_nil]

theorem remaining_eq (h : InEnvelope done left c) : c.remaining = left.length := by
  obtain ⟨inner, outer, hframes⟩ := h.frames_eq
  simp only [remaining, hframes, Nat.add_sub_cancel_left]

/-- The next value is offered. -/
theorem offers (h : InEnvelope done (item :: left) c) : c.Offers 1 item := by
  obtain ⟨inner, outer, hframes⟩ := h.frames_eq
  have hlength := h.coherent.position_add_length
  have hunread : c.unread = item ++ left.flatten := h.unread_eq
  refine ⟨?_, hunread ▸ List.prefix_append _ _, ?_⟩
  · rw [hunread, List.length_append] at hlength
    simp only [available, bound, hframes, innermostEnd?, Option.getD_some]
    omega
  · intro frame rest hcons
    rw [hframes] at hcons
    cases hcons
    simp only [List.length_cons]
    omega

/-- A value that is passed is done. -/
theorem passes (h : InEnvelope done (item :: left) c) (hpasses : c.Passes 1 item c') :
    InEnvelope (done + 1) left c' := by
  obtain ⟨inner, outer, hframes⟩ := h.frames_eq
  refine ⟨hpasses.coherent h.coherent, ?_, inner, outer, ?_⟩
  · rw [hpasses.2, past_unread, h.unread_eq, List.flatten_cons, List.drop_left]
  · rw [hpasses.2, past_frames, hframes, claimAll_cons, past_size, List.length_cons]
    simp only [Nat.add_assoc, Nat.add_comm 1]

/-- The values that are left can be skipped, by induction on them. -/
theorem skipUpTo (h : InEnvelope done left c)
    (hleft : ∀ item ∈ left, Extent (c.limits.maxDepth - 2) item) :
    ∃ c', skipUpTo left.length c = .ok () c' ∧ InEnvelope (done + left.length) [] c' := by
  induction left generalizing done c with
  | nil => exact ⟨c, rfl, h⟩
  | cons item left ih =>
      rw [List.forall_mem_cons] at hleft
      have hextent : Grammar.extent c.allowance 1 item () := ⟨rfl, h.allowance_eq ▸ hleft.1⟩
      obtain ⟨c₁, hskip, hpasses⟩ :=
        (readsAt_skip h.coherent).complete (Limits.le_refl _) hextent h.offers
      have hlimits : c₁.limits = c.limits := by rw [hpasses.2, past_limits]
      obtain ⟨c', hrest, hdone⟩ := ih (h.passes hpasses) (hlimits ▸ hleft.2)
      refine ⟨c', ?_, ?_⟩
      · have hasks : asks Cursor.remaining c = .ok (left.length + 1) c := by
          rw [asks, h.remaining_eq, List.length_cons]
        rw [List.length_cons, Cursor.skipUpTo, bind_of_ok hasks, if_neg (Nat.succ_ne_zero _),
          bind_of_ok hskip, hrest]
      · rw [List.length_cons, Nat.add_comm left.length 1, ← Nat.add_assoc]
        exact hdone

/-- Behind its last value the envelope can be left, and that is the end. -/
theorem exitComposite (h : InEnvelope done [] c) :
    ∃ c', exitComposite c = .ok () c' ∧ c'.atEnd = true := by
  obtain ⟨inner, outer, hframes⟩ := h.frames_eq
  have hlength := h.coherent.position_add_length
  rw [h.unread_eq, List.flatten_nil, List.length_nil, Nat.add_zero] at hlength
  have hlist : exitList c = .ok () (c.within [⟨.described, outer, none, 1, 1⟩]) := by
    refine pop_eq_ok_iff.mpr ⟨_, _, hframes, rfl, rfl, ?_, rfl⟩
    rintro e ⟨⟩
    exact hlength
  have hdescribed : finishDescribed (c.within [⟨.described, outer, none, 1, 1⟩]) =
      .ok () (c.within []) :=
    pop_eq_ok_iff.mpr ⟨_, _, rfl, rfl, rfl, nofun, rfl⟩
  refine ⟨c.within [], bind_eq_ok_iff.mpr ⟨(), _, hlist, hdescribed⟩, ?_⟩
  exact decide_eq_true (Nat.le_of_eq hlength.symm)

theorem exitEnvelope (h : InEnvelope done left c)
    (hleft : ∀ item ∈ left, Extent (c.limits.maxDepth - 2) item) :
    ∃ c', exitEnvelope c = .ok () c' ∧ c'.atEnd = true := by
  obtain ⟨c₁, hskip, hdone⟩ := h.skipUpTo hleft
  obtain ⟨c', hexit, hend⟩ := hdone.exitComposite
  refine ⟨c', bind_eq_ok_iff.mpr ⟨(), c₁, ?_, hexit⟩, hend⟩
  rw [skipRemaining_eq h.frames_ne_nil, h.remaining_eq, hskip]

end InEnvelope

theorem ListHeader.exists_size {format : FormatCode} {bs : Bytes} {heading : Heading}
    (h : ListHeader format bounds bs heading) : ∃ size, heading.size = some size := by
  have hcompound : ∀ width, CompoundHeader width bounds bs heading →
      ∃ size, heading.size = some size := by
    rintro width ⟨size, _, _, -, -, -, -, rfl, -⟩
    exact ⟨size, rfl⟩
  unfold ListHeader at h
  split at h
  · exact ⟨0, h.2 ▸ rfl⟩
  · exact hcompound 1 h
  · exact hcompound 4 h
  · exact h.elim

namespace Before

/-- An envelope is entered at its first value. -/
theorem enterEnvelope (h : Before limits bytes c) {item : Bytes} {items : List Bytes}
    (henvelope : EnvelopeOf limits.maxCollectionLength (item :: items) bytes)
    (hitems : ∀ part ∈ item :: items, part ≠ []) (hroom : 2 ≤ limits.maxDepth) :
    ∃ c₁, enterEnvelope c = .ok true c₁ ∧ InEnvelope 0 (item :: items) c₁ ∧ c₁.limits = limits := by
  obtain ⟨list, ⟨descriptor, rfl, hdescriptor⟩, hlist⟩ := henvelope
  have hallowance := h.allowance_eq
  have hunread := h.unread_eq
  have hwhole : c.Offers 1 (0x00 :: descriptor ++ list) := h.offers 1
  -- The marker and the descriptor open the first frame.
  obtain ⟨-, c₁, hbegin, hopens⟩ := (enters_beginDescribed h.coherent).complete
    (Limits.le_refl _) ⟨rfl, descriptor, rfl, Grammar.descriptor_written_iff.mpr ⟨rfl, hdescriptor⟩⟩
    hwhole.of_append nofun (by rw [hallowance]; omega)
  have hc₁ : c₁.Coherent := walks_beginDescribed.coherent h.coherent hbegin
  have hoffers : c₁.Offers 1 list := hopens.offers_body nofun hwhole
  have hinner : c₁.allowance = limits.inner := by rw [hopens.allowance_eq, hallowance]
  -- The head of the list opens the second.
  have hinnerList : ListOf limits.inner.maxCollectionLength (item :: items) list := hlist
  obtain ⟨format, header, heading, rfl, hheader, hcount, hsize⟩ :=
    (listOf_iff hitems).mpr hinnerList
  rw [← List.cons_append] at hoffers
  have hfits := hoffers.fits
  rw [List.length_append] at hfits
  obtain ⟨-, c₂, henter, hopens'⟩ := (enters_enterList hc₁).complete (Limits.le_refl _)
    ⟨rfl, format, header, rfl, hinner ▸ hheader⟩ hoffers.of_append
    (fun size hdeclared => by rw [← hsize size hdeclared]; exact hfits)
    (by rw [hinner]; simp only [Limits.inner]; omega)
  have hc₂ : c₂.Coherent := walks_enterList.coherent hc₁ henter
  obtain ⟨size, hdeclared⟩ := hheader.exists_size
  have hin : InEnvelope 0 (item :: items) c₂ := by
    have hunread₁ : c₁.unread = format.toByte :: header ++ (item :: items).flatten := by
      rw [hopens.unread_eq, hunread]
      exact List.drop_left
    have hunread₂ : c₂.unread = (item :: items).flatten := by
      rw [hopens'.unread_eq, hunread₁, List.drop_left]
    have hlength := hc₂.position_add_length
    rw [hopens'.position_eq, hunread₂, hsize size hdeclared] at hlength
    refine ⟨hc₂, hunread₂, c₁.position, c.position, ?_⟩
    rw [hopens'.frames_eq, hopens.frames_eq, h.frames_eq]
    simp only [Heading.frame, hdeclared, hcount, Option.map_some, Option.map_none, hlength,
      claimAll_nil, claimAll_cons, Nat.zero_add]
  have hlimits : c₂.limits = limits := by
    have hbegun : c₁.limits = c.limits := hopens.opened ▸ rfl
    have hentered : c₂.limits = c₁.limits := hopens'.opened ▸ rfl
    rw [hentered, hbegun, h.limits_eq]
  refine ⟨c₂, ?_, hin, hlimits⟩
  have hpeek : peekDescriptor c = .ok (some envelopeDescriptor) c :=
    peekDescriptor_eq_ok h.coherent (h.offers 1)
      (headed_envelope_iff.mpr ⟨_, descriptor, rfl, hdescriptor⟩)
  have hcomposite : enterComposite c = .ok envelopeDescriptor c₂ :=
    bind_eq_ok_iff.mpr ⟨_, c₁, hbegin, bind_eq_ok_iff.mpr ⟨_, c₂, henter, rfl⟩⟩
  have hleft : c₂.remaining ≠ 0 := by
    rw [hin.remaining_eq]
    exact Nat.succ_ne_zero _
  rw [Cursor.enterEnvelope, bind_of_ok hpeek, if_pos rfl, bind_of_ok hcomposite]
  exact bind_eq_ok_iff.mpr ⟨c₂, c₂, rfl, unless_eq_ok_iff.mpr ⟨hleft, rfl⟩⟩

/-- A stream in an envelope is accepted exactly if the first of the values in it is the value,
whatever stands behind that. -/
theorem exists_framed_iff_of_envelope (h : Before limits bytes c) (hg : Spans g)
    (hroot : ReadsRoot ⟨limits.maxDepth - 2, limits.maxCollectionLength⟩ reader g)
    (hunwrap : framing.unwrapEnvelope = true)
    (henvelope : EnvelopeOf limits.maxCollectionLength (object :: sections) bytes)
    (hparts : ∀ part ∈ object :: sections, Extent (limits.maxDepth - 2) part)
    (hroom : 2 ≤ limits.maxDepth) :
    (∃ c', (framed framing reader >>= finish) c = .ok value c') ↔
      g ⟨limits.maxDepth - 2, limits.maxCollectionLength⟩ 1 object value := by
  obtain ⟨c₁, henter, hin, hlimits⟩ :=
    h.enterEnvelope henvelope (fun part hpart => (hparts part hpart).ne_nil) hroom
  have hallowance : c₁.marked.allowance = ⟨limits.maxDepth - 2, limits.maxCollectionLength⟩ := by
    have hmarked := hin.marked.allowance_eq
    rw [hmarked]
    exact congrArg (fun l : Limits => (⟨l.maxDepth - 2, l.maxCollectionLength⟩ : Limits)) hlimits
  have hreads : ReadsAt c₁.marked reader g :=
    hroot hin.coherent.marked (atRootSlot_marked c₁) hallowance
  have hframed : framed framing reader c =
      (do let value ← reader; exitEnvelope; return value) c₁.marked := by
    have hunwrapped : unwrap framing c = .ok true c₁ := by
      rw [unwrap, if_pos hunwrap, henter]
    rw [framed, bind_of_ok hunwrapped, atRoot_true]
  rw [List.forall_mem_cons] at hparts
  constructor
  · rintro ⟨c', hok⟩
    obtain ⟨result, c₂, hfirst, hfinish⟩ := bind_eq_ok_iff.mp hok
    obtain ⟨-, rfl, -⟩ := finish_eq_ok_iff.mp hfinish
    rw [hframed] at hfirst
    obtain ⟨found, c₃, hread, hrest⟩ := bind_eq_ok_iff.mp hfirst
    obtain ⟨_, c₄, -, hpure⟩ := bind_eq_ok_iff.mp hrest
    obtain ⟨rfl, -⟩ := pure_eq_ok_iff.mp hpure
    obtain ⟨n, bs, hvalue, hpasses⟩ := hreads.sound hread
    obtain ⟨rfl, hextent⟩ := hg hvalue
    -- The object and what was read are both the value in front.
    have hsame : bs ++ c₃.unread = object ++ sections.flatten := by
      rw [← hpasses.unread_eq]
      exact hin.unread_eq
    obtain rfl := hextent.unique hparts.1 hsame
    rw [hallowance] at hvalue
    exact hvalue
  · intro hvalue
    obtain ⟨c₂, hread, hpasses⟩ :=
      hreads.complete (hallowance ▸ Limits.le_refl _) hvalue hin.marked.offers
    have hlimits₂ : c₂.limits = limits := by
      rw [hpasses.2, past_limits]
      exact hlimits
    obtain ⟨c', hexit, hend⟩ :=
      (hin.marked.passes hpasses).exitEnvelope (hlimits₂ ▸ hparts.2)
    refine ⟨c', bind_eq_ok_iff.mpr ⟨value, c', ?_, finish_eq_ok_iff.mpr ⟨hend, rfl, rfl⟩⟩⟩
    rw [hframed, bind_of_ok hread, bind_of_ok hexit]
    rfl

end Before

/-! ## With a preamble or without -/

/-- A preamble changes nothing about what stands behind it. -/
theorem exists_rootValue_iff {stream : Bytes} {p : Prop} (hstream : Prefaced bytes stream)
    (hstem : ¬ magicStem <+: bytes) (hrequire : framing.requirePreamble = false)
    (hframed : ∀ c, Before limits bytes c →
      ((∃ c', (framed framing reader >>= finish) c = .ok value c') ↔ p)) :
    (∃ c', rootValue framing reader (Cursor.start stream limits) = .ok value c') ↔ p := by
  have hstart := before_start stream limits
  rw [rootValue_eq]
  rcases hstream with rfl | rfl
  · rw [bind_of_ok (hstart.readPreamble_of_stem hstem hrequire)]
    exact hframed _ hstart
  · obtain ⟨c₁, hpreamble, hbefore⟩ := hstart.readPreamble_of_preface framing
    rw [bind_of_ok hpreamble]
    exact hframed _ hbefore

end

/-! ## Complete streams -/

namespace Registry

theorem exists_readStream_iff {registry : Registry} {t : Target} {stream : Bytes}
    {value : t.Carrier} :
    (∃ c, registry.readStream (registry.decodeTarget t) stream = .ok value c) ↔
      registry.decodeRoot t stream = .ok value := by
  refine ⟨?_, decodeRoot_eq_ok⟩
  rintro ⟨c, hread⟩
  rw [decodeRoot, hread]

/-- Where neither a preamble nor an envelope is looked for, all of a stream is the value. -/
theorem decodeRoot_iff_of_bare {registry : Registry} (hregistry : registry.Declared)
    (hrequire : registry.settings.framing.requirePreamble = false)
    (hunwrap : registry.settings.framing.unwrapEnvelope = false) {stream : Bytes}
    (hmagic : ¬ streamMagic <+: stream) (t : Target) {levels : Nat}
    (hlevels : registry.settings.limits.maxDepth < levels) {value : t.Carrier} :
    registry.decodeRoot t stream = .ok value ↔
      Grammar.target registry levels true t registry.settings.limits 1 stream value := by
  have hspans : Spans (Grammar.target registry levels true t) := Spans.target _ _ _ _
  rw [← exists_readStream_iff]
  by_cases hstem : magicStem <+: stream
  · -- The magic of another version is refused, and no value starts like that.
    have hstart : (Cursor.start stream registry.settings.limits).unread = stream := rfl
    constructor
    · rintro ⟨c, hread⟩
      rw [readStream, rootValue_eq] at hread
      obtain ⟨found, c₁, hpreamble, -⟩ := bind_eq_ok_iff.mp hread
      rw [readPreamble_of_not_magic _ (hstart ▸ hmagic), if_pos (hstart ▸ hstem)] at hpreamble
      cases hpreamble
    · intro hvalue
      obtain ⟨-, hextent⟩ := hspans hvalue
      obtain ⟨format, rest, rfl⟩ := hextent.exists_code
      exact absurd hstem (not_prefix_of_code rfl)
  · refine exists_rootValue_iff (.inl rfl) hstem hrequire fun c hc => ?_
    refine hc.exists_framed_iff_of_bare hspans (Shows.target _ _ _ _)
      (readsRoot_target hregistry hlevels t) fun hon => ?_
    rw [hunwrap] at hon
    cases hon

end Registry

end AmqpEnvelope
