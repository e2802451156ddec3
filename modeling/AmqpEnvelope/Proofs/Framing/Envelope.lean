import AmqpEnvelope.Proofs.Framing.Root

/-!
# Envelopes that are accepted

What is read of an envelope shows that it is one: it was entered, so there are a descriptor and
the head of a list, and it was left, so the values that were passed are those that the head
declares.  A stream that starts like an envelope is therefore accepted exactly if it is an
envelope of complete values and the first of them is the value
(`Before.exists_framed_iff_of_headed`).
-/

namespace AmqpEnvelope

open Cursor Written

namespace Cursor

variable {c c₁ c' : Cursor}

theorem Coherent.passes_nil (hc : c.Coherent) : c.Passes 0 [] c :=
  ⟨Offers.nil.mpr hc.innermost_consumed_le, (past_nil c).symm⟩

/-- Values that are skipped stand one behind the other; by induction on their number. -/
theorem passes_of_skipUpTo {steps : Nat} (hc : c.Coherent) (h : skipUpTo steps c = .ok () c') :
    ∃ items : List Bytes, (∀ item ∈ items, Extent c.allowance.maxDepth item) ∧
      c.Passes items.length items.flatten c' := by
  induction steps generalizing c with
  | zero =>
      obtain ⟨-, rfl⟩ := pure_eq_ok_iff.mp h
      exact ⟨[], List.forall_mem_nil _, hc.passes_nil⟩
  | succ steps ih =>
      obtain ⟨left, c₁, hleft, h⟩ := bind_eq_ok_iff.mp h
      obtain ⟨rfl, rfl⟩ := asks_eq_ok_iff.mp hleft
      by_cases hnone : c.remaining = 0
      · rw [if_pos hnone] at h
        obtain ⟨-, rfl⟩ := pure_eq_ok_iff.mp h
        exact ⟨[], List.forall_mem_nil _, hc.passes_nil⟩
      · rw [if_neg hnone] at h
        obtain ⟨_, c₁, hskip, h⟩ := bind_eq_ok_iff.mp h
        obtain ⟨_, item, ⟨rfl, hitem⟩, hpasses⟩ := (readsAt_skip hc).sound hskip
        obtain ⟨items, hitems, hrest⟩ := ih (hpasses.coherent hc) h
        rw [hpasses.allowance_eq] at hitems
        have hwhole := hpasses.trans hrest
        rw [Nat.add_comm] at hwhole
        exact ⟨item :: items, List.forall_mem_cons.mpr ⟨hitem, hitems⟩, hwhole⟩

/-- What is left in the innermost frame is skipped, and then the composite is left. -/
theorem exists_of_exitEnvelope (hc : c.Coherent) (h : exitEnvelope c = .ok () c') :
    ∃ sections : List Bytes, (∀ item ∈ sections, Extent c.allowance.maxDepth item) ∧
      ∃ c₁, c.Passes sections.length sections.flatten c₁ ∧ exitComposite c₁ = .ok () c' := by
  obtain ⟨_, c₁, hskip, hexit⟩ := bind_eq_ok_iff.mp h
  obtain ⟨sections, hsections, hpasses⟩ := passes_of_skipUpTo hc hskip
  exact ⟨sections, hsections, c₁, hpasses, hexit⟩

/-- The cursor with another slot marked as the root, or with none. -/
def marking (c : Cursor) (root : Option (Nat × Nat)) : Cursor := { c with root := root }

end Cursor

/-- The mark has no part in the opening of containers. -/
theorem Opens.marking {c c₁ : Cursor} {kind : FrameKind} {head : Bytes} {heading : Heading}
    (h : Opens c kind head heading c₁) (root : Option (Nat × Nat)) :
    Opens (c.marking root) kind head heading (c₁.marking root) where
  offers := ⟨h.offers.fits, h.offers.front, h.offers.spare⟩
  fits := h.fits
  room := h.room
  opened := congrArg (Cursor.marking · root) h.opened

section

variable {c c₂ c₃ c' : Cursor} {d : Descriptor}

/-- A composite is entered by opening two containers, that of the descriptor and the list. -/
theorem exists_opens_of_enterComposite (hc : c.Coherent) (h : enterComposite c = .ok d c₂) :
    ∃ c₁ raw descriptor format header heading, DescriptorOf raw descriptor ∧
      ListHeader format c.allowance.inner header heading ∧
        Opens c .described (0x00 :: descriptor) ⟨1, none⟩ c₁ ∧
          Opens c₁ .list (format.toByte :: header) heading c₂ := by
  obtain ⟨opening, c₁, hbegin, h⟩ := bind_eq_ok_iff.mp h
  obtain ⟨count, _, henter, hpure⟩ := bind_eq_ok_iff.mp h
  obtain ⟨-, rfl⟩ := pure_eq_ok_iff.mp hpure
  obtain ⟨_, _, raw, -, ⟨rfl, descriptor, rfl, hraw⟩, -, hopens⟩ :=
    (enters_beginDescribed hc).sound hbegin
  have hc₁ : c₁.Coherent := walks_beginDescribed.coherent hc hbegin
  obtain ⟨_, heading, _, -, ⟨-, format, header, rfl, hheader⟩, -, hopens'⟩ :=
    (enters_enterList hc₁).sound henter
  rw [hopens.allowance_eq] at hheader
  exact ⟨c₁, raw, descriptor, format, header, heading, (Grammar.descriptor_written_iff.mp hraw).2,
    hheader, hopens, hopens'⟩

/-- Two levels are taken by a composite. -/
theorem allowance_of_enterComposite (hc : c.Coherent) (h : enterComposite c = .ok d c₂) :
    2 ≤ c.allowance.maxDepth ∧
      c₂.allowance = ⟨c.allowance.maxDepth - 2, c.allowance.maxCollectionLength⟩ := by
  obtain ⟨c₁, _, _, _, _, _, -, -, hopens, hopens'⟩ := exists_opens_of_enterComposite hc h
  have hroom := hopens'.room
  rw [hopens.allowance_eq] at hroom
  constructor
  · simp only [Limits.inner] at hroom
    omega
  · rw [hopens'.allowance_eq, hopens.allowance_eq]
    rfl

/-- A composite that is left after so many values is the list of these behind a descriptor, also
if the root was marked inside it. -/
theorem written_of_exitComposite (root : Option (Nat × Nat)) (hc : c.Coherent)
    (henter : enterComposite c = .ok d c₂) {items : List Bytes} (hitems : ∀ item ∈ items, item ≠ [])
    (hpasses : (c₂.marking root).Passes items.length items.flatten c₃)
    (hexit : exitComposite c₃ = .ok () c') :
    ∃ raw list bytes, Described raw list bytes ∧
      ListOf c.allowance.maxCollectionLength items list ∧ (c.marking root).Passes 1 bytes c' := by
  obtain ⟨c₁, raw, descriptor, format, header, heading, hdescriptor, hheader, hopens, hopens'⟩ :=
    exists_opens_of_enterComposite hc henter
  obtain ⟨_, c₄, hpop, hpop'⟩ := bind_eq_ok_iff.mp hexit
  obtain ⟨hcount, hsize, hbody⟩ := (hopens'.marking root).leave hpasses hpop
  obtain ⟨-, -, hwhole⟩ := (hopens.marking root).leave hbody hpop'
  have hlist : ListOf c.allowance.inner.maxCollectionLength items
      (format.toByte :: header ++ items.flatten) :=
    (listOf_iff hitems).mp ⟨format, header, heading, rfl, hheader, hcount.symm, hsize⟩
  exact ⟨raw, _, _, ⟨descriptor, rfl, hdescriptor⟩, hlist, hwhole⟩

end

namespace Before

variable {α : Type} {limits : Limits} {framing : Framing} {reader : Decoding α} {g : Grammar α}
  {value : α} {bytes : Bytes} {c c₂ c₃ c' : Cursor}

/-- Where an envelope is seen, it is entered. -/
theorem enterComposite_of_unwrap (h : Before limits bytes c)
    (hunwrap : framing.unwrapEnvelope = true) (hheaded : Headed envelopeDescriptor bytes)
    {enveloped : Bool} (hok : unwrap framing c = .ok enveloped c') :
    enveloped = true ∧ ∃ d, enterComposite c = .ok d c' := by
  have hpeek := peekDescriptor_eq_ok h.coherent (h.offers 1) hheaded
  rw [unwrap, if_pos hunwrap, Cursor.enterEnvelope, bind_of_ok hpeek, if_pos rfl] at hok
  obtain ⟨d, c₁, henter, hok⟩ := bind_eq_ok_iff.mp hok
  obtain ⟨_, _, hget, hok⟩ := bind_eq_ok_iff.mp hok
  cases hget
  obtain ⟨-, hok⟩ := unless_eq_ok_iff.mp hok
  obtain ⟨rfl, rfl⟩ := pure_eq_ok_iff.mp hok
  exact ⟨rfl, d, henter⟩

/-- An envelope that was entered and left, with nothing behind it, is an envelope of the values
that were passed in it. -/
theorem envelopeOf_of_exitComposite (h : Before limits bytes c)
    (hheaded : Headed envelopeDescriptor bytes) {d : Descriptor}
    (henter : enterComposite c = .ok d c₂) {items : List Bytes} (hitems : ∀ item ∈ items, item ≠ [])
    (hpasses : c₂.marked.Passes items.length items.flatten c₃)
    (hexit : exitComposite c₃ = .ok () c') (hend : c'.atEnd = true) :
    EnvelopeOf limits.maxCollectionLength items bytes := by
  obtain ⟨raw, list, whole, hdescribed, hlist, hwhole⟩ :=
    written_of_exitComposite (some (c₂.depth, c₂.position)) h.coherent henter hitems hpasses hexit
  have hc₂ : c₂.marked.Coherent := (walks_enterComposite.coherent h.coherent henter).marked
  have hc' : c'.Coherent := walks_exitComposite.coherent (hpasses.coherent hc₂) hexit
  have hnothing : c'.unread = [] := (atEnd_iff hc').mp hend
  obtain rfl : bytes = whole := by
    have hunread := hwhole.unread_eq
    rw [hnothing, List.append_nil] at hunread
    exact h.unread_eq.symm.trans hunread
  have hraw : raw.descriptor = envelopeDescriptor :=
    h.headed_unique (headed_iff.mpr ⟨raw, list, hdescribed, rfl⟩) hheaded
  obtain rfl := RawDescriptor.eq_of_envelope hraw
  rw [h.allowance_eq] at hlist
  exact ⟨list, hdescribed, hlist⟩

/-- A stream that starts like an envelope is accepted exactly if it is one, of complete values
the first of which is the value. -/
theorem exists_framed_iff_of_headed (h : Before limits bytes c) (hg : Spans g)
    (hroot : ReadsRoot ⟨limits.maxDepth - 2, limits.maxCollectionLength⟩ reader g)
    (hunwrap : framing.unwrapEnvelope = true) (hheaded : Headed envelopeDescriptor bytes) :
    (∃ c', (framed framing reader >>= finish) c = .ok value c') ↔
      2 ≤ limits.maxDepth ∧ ∃ object sections,
        EnvelopeOf limits.maxCollectionLength (object :: sections) bytes ∧
          (∀ part ∈ object :: sections, Extent (limits.maxDepth - 2) part) ∧
            g ⟨limits.maxDepth - 2, limits.maxCollectionLength⟩ 1 object value := by
  constructor
  · rintro ⟨c', hok⟩
    obtain ⟨_, c₁, hframed, hfinish⟩ := bind_eq_ok_iff.mp hok
    obtain ⟨hend, rfl, rfl⟩ := finish_eq_ok_iff.mp hfinish
    obtain ⟨enveloped, c₂, hfound, hread⟩ := bind_eq_ok_iff.mp hframed
    obtain ⟨rfl, d, henter⟩ := h.enterComposite_of_unwrap hunwrap hheaded hfound
    rw [atRoot_true] at hread
    obtain ⟨_, c₃, hobject, hleave⟩ := bind_eq_ok_iff.mp hread
    obtain ⟨_, c₄, hexit, hpure⟩ := bind_eq_ok_iff.mp hleave
    obtain ⟨rfl, rfl⟩ := pure_eq_ok_iff.mp hpure
    have hc₂ : c₂.marked.Coherent := (walks_enterComposite.coherent h.coherent henter).marked
    obtain ⟨hroom, hallowance⟩ := allowance_of_enterComposite h.coherent henter
    rw [h.allowance_eq] at hroom hallowance
    have hmarked : c₂.marked.allowance = ⟨limits.maxDepth - 2, limits.maxCollectionLength⟩ :=
      hallowance
    -- The object is passed first, and then the values behind it.
    obtain ⟨_, object, hvalue, hpasses⟩ :=
      (hroot hc₂ (atRootSlot_marked c₂) hmarked).sound hobject
    obtain ⟨rfl, hextent⟩ := hg hvalue
    obtain ⟨sections, hsections, c₅, hrest, hexit⟩ :=
      exists_of_exitEnvelope (hpasses.coherent hc₂) hexit
    rw [hpasses.allowance_eq, hmarked] at hsections
    rw [hmarked] at hvalue hextent
    have hparts : ∀ part ∈ object :: sections, Extent (limits.maxDepth - 2) part :=
      List.forall_mem_cons.mpr ⟨hextent, hsections⟩
    have hall := hpasses.trans hrest
    rw [Nat.add_comm] at hall
    exact ⟨hroom, object, sections, h.envelopeOf_of_exitComposite hheaded henter
      (fun part hpart => (hparts part hpart).ne_nil) hall hexit hend, hparts, hvalue⟩
  · rintro ⟨hroom, object, sections, henvelope, hparts, hvalue⟩
    exact (h.exists_framed_iff_of_envelope hg hroot hunwrap henvelope hparts hroom).mpr hvalue

end Before

end AmqpEnvelope
