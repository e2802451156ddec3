import AmqpEnvelope.Proofs.Cursor.Walk
import AmqpEnvelope.Proofs.Grammar.Extent

/-!
# Containers

A container is a head and its elements.  The head says how many elements there are and,
for lists and maps, how many bytes they take (`Heading`).  Behind the last element the
container has to end, so what stands in it is a byte string of its own: the grammar of
the elements is asked about those bytes alone, with one level of nesting less.

`readsAt_container` is the one argument for described values, lists and maps: a reader
that enters, reads the elements and leaves again follows the grammar of the container,
if it follows the grammar of the elements at every cursor `Inside`.  Such a cursor has
less room and less left to happen, and it has left the slot that may be the root
behind, so it is also where the recursion of decoding goes.
-/

namespace AmqpEnvelope

open Cursor

/-! ## Inside a container -/

/-- The cursor stands in a container that was opened at another one or later. -/
structure Inside (outer c : Cursor) : Prop where
  coherent : c.Coherent
  /-- Less room is left for nesting. -/
  deeper : c.allowance.maxDepth < outer.allowance.maxDepth
  /-- The head of the container has been read. -/
  behind : outer.position < c.position
  /-- Less is left to happen. -/
  less : c.potential < outer.potential
  root_eq : c.root = outer.root

namespace Inside

variable {outer c c' : Cursor}

theorem trans (h : Inside outer c) (h' : Inside c c') : Inside outer c' where
  coherent := h'.coherent
  deeper := Nat.lt_trans h'.deeper h.deeper
  behind := Nat.lt_trans h.behind h'.behind
  less := Nat.lt_trans h'.less h.less
  root_eq := h'.root_eq.trans h.root_eq

/-- Passing bytes does not leave the container. -/
theorem passes (h : Inside outer c) {n : Nat} {bs : Bytes} (hpasses : c.Passes n bs c') :
    Inside outer c' where
  coherent := hpasses.coherent h.coherent
  deeper := by
    rw [hpasses.allowance_eq]
    exact h.deeper
  behind := by
    rw [hpasses.2, past_position]
    exact Nat.lt_of_lt_of_le h.behind (Nat.le_add_right _ _)
  less := by
    refine Nat.lt_of_le_of_lt ?_ h.less
    rw [hpasses.2]
    simp only [potential, past_size, past_position, past_frames, length_claimAll]
    omega
  root_eq := by
    rw [hpasses.2, past_root]
    exact h.root_eq

/-- Noting a type does not leave it either. -/
theorem begun (h : Inside outer c) (name : String) :
    Inside outer { c with entered := name :: c.entered } where
  coherent := (Move.begin name).coherent h.coherent
  deeper := h.deeper
  behind := h.behind
  less := h.less
  root_eq := h.root_eq

/-- A cursor in a container is past the root slot, if the root has been marked where the
container begins or before. -/
theorem atRootSlot_eq_false (h : Inside outer c) (houter : outer.Coherent) :
    c.atRootSlot = false := by
  rw [atRootSlot, beq_eq_false_iff_ne]
  intro hroot
  rw [h.root_eq] at hroot
  have hmarked := houter.root_le _ _ hroot
  have hbehind := h.behind
  omega

end Inside

/-! ## Heads -/

/-- What the head of a container declares: the number of elements, and the number of
bytes that they take unless that is left open. -/
structure Heading where
  count : Nat
  size : Option Nat

/-- The frame of a container that starts and whose elements start at the given places. -/
def Heading.frame (heading : Heading) (kind : FrameKind) (start front : Nat) : Frame :=
  ⟨kind, start, heading.size.map (front + ·), heading.count, 0⟩

/-- The heads of a kind of container, with what they declare and what they say besides. -/
abbrev HeadGrammar (ι : Type) := Limits → Bytes → Heading → ι → Prop

/-- A container has been opened at a cursor: its head was offered and is passed, its
elements fit, and there was room for its frame. -/
structure Opens (c : Cursor) (kind : FrameKind) (head : Bytes) (heading : Heading)
    (c₁ : Cursor) : Prop where
  offers : c.Offers 1 head
  fits : ∀ size, heading.size = some size → head.length + size ≤ c.available
  room : 0 < c.allowance.maxDepth
  opened : c₁ = (c.past 1 head c₁.entered).within
    (heading.frame kind c.position (c.position + head.length) :: claimAll 1 c.frames)

namespace Opens

variable {c c₁ : Cursor} {kind : FrameKind} {head : Bytes} {heading : Heading}

theorem allowance_eq (h : Opens c kind head heading c₁) : c₁.allowance = c.allowance.inner := by
  have heq := h.opened
  rw [heq]
  simp only [allowance, depth, within_limits, past_limits, within_frames, List.length_cons,
    length_claimAll, Limits.inner, Nat.sub_sub]

theorem inside (h : Opens c kind head heading c₁) (hhead : head ≠ []) (hc₁ : c₁.Coherent) :
    Inside c c₁ := by
  have hroom := h.room
  have hdeeper := congrArg Limits.maxDepth h.allowance_eq
  have hlength := List.length_pos_iff.mpr hhead
  have hsize := hc₁.position_add_length
  have heq := h.opened
  refine ⟨hc₁, ?_, ?_, ?_, ?_⟩
  · simp only [hdeeper, Limits.inner]
    omega
  · rw [heq, within_position, past_position]
    omega
  · rw [heq, within_position, past_position, within_size, past_size] at hsize
    rw [heq]
    simp only [potential, within_size, past_size, within_position, past_position, within_frames,
      List.length_cons, length_claimAll]
    omega
  · rw [heq, within_root, past_root]

end Opens

/-- A reader enters containers of a kind.  Its answer is made of what the head says, to
which it may add the place. -/
structure Enters {ω ι : Type} (c : Cursor) (enter : Decoding ω) (kind : FrameKind)
    (make : ι → ω) (heads : HeadGrammar ι) : Prop where
  sound : ∀ {w : ω} {c₁ : Cursor}, enter c = .ok w c₁ → ∃ head heading info,
    w = make info ∧ heads c.allowance head heading info ∧ head ≠ [] ∧
      Opens c kind head heading c₁
  complete : ∀ {bounds : Limits} {head : Bytes} {heading : Heading} {info : ι},
    bounds ≤ c.allowance → heads bounds head heading info → c.Offers 1 head →
      (∀ size, heading.size = some size → head.length + size ≤ c.available) →
        0 < c.allowance.maxDepth → head ≠ [] ∧ ∃ c₁, enter c = .ok (make info) c₁ ∧
          Opens c kind head heading c₁

namespace Grammar

variable {α ι : Type}

/-- A container: a head, and the elements in the bytes that it declares. -/
def container (heads : HeadGrammar ι) (elements : ι → Grammar α) : Grammar α :=
  fun bounds n bytes value => n = 1 ∧ 0 < bounds.maxDepth ∧ ∃ head heading info body,
    bytes = head ++ body ∧ heads bounds head heading info ∧
      (∀ size, heading.size = some size → body.length = size) ∧
        elements info bounds.inner heading.count body value

end Grammar

/-! ## Opening and leaving -/

namespace Opens

variable {c c₁ c₂ c' : Cursor} {kind : FrameKind} {head body : Bytes} {heading : Heading} {m : Nat}

/-- A container is opened by pushing its frame behind its head. -/
theorem of_push (hpasses : c.Passes 1 head c₁)
    (hfits : ∀ size, heading.size = some size → head.length + size ≤ c.available)
    (hpush : push kind c.position (heading.size.map (c₁.position + ·)) heading.count c₁ = .ok () c₂) :
    Opens c kind head heading c₂ := by
  obtain ⟨hdepth, rfl⟩ := push_eq_ok_iff.mp hpush
  have hallowance := congrArg Limits.maxDepth hpasses.allowance_eq
  refine ⟨hpasses.1, hfits, ?_, ?_⟩
  · rw [← hallowance]
    exact Nat.sub_pos_of_lt hdepth
  · have hposition := congrArg Cursor.position hpasses.2
    have hframes := congrArg Cursor.frames hpasses.2
    rw [past_position] at hposition
    rw [past_frames] at hframes
    rw [within_entered, ← hpasses.2, hframes, hposition, Heading.frame]

theorem exists_push (hpasses : c.Passes 1 head c₁)
    (hfits : ∀ size, heading.size = some size → head.length + size ≤ c.available)
    (hroom : 0 < c.allowance.maxDepth) (kind : FrameKind) :
    ∃ c₂, push kind c.position (heading.size.map (c₁.position + ·)) heading.count c₁ = .ok () c₂ ∧
      Opens c kind head heading c₂ := by
  rw [← hpasses.allowance_eq] at hroom
  have hpush : push kind c.position (heading.size.map (c₁.position + ·)) heading.count c₁ =
      .ok () (c₁.within (heading.frame kind c.position c₁.position :: c₁.frames)) :=
    push_eq_ok_iff.mpr ⟨Nat.lt_of_sub_pos hroom, rfl⟩
  exact ⟨_, hpush, of_push hpasses hfits hpush⟩

theorem position_eq (h : Opens c kind head heading c₁) :
    c₁.position = c.position + head.length := by
  have heq := h.opened
  rw [heq, within_position, past_position]

theorem unread_eq (h : Opens c kind head heading c₁) : c₁.unread = c.unread.drop head.length := by
  have heq := h.opened
  rw [heq, within_unread, past_unread]

theorem size_eq (h : Opens c kind head heading c₁) : c₁.size = c.size := by
  have heq := h.opened
  rw [heq, within_size, past_size]

theorem frames_eq (h : Opens c kind head heading c₁) : c₁.frames =
    heading.frame kind c.position (c.position + head.length) :: claimAll 1 c.frames := by
  have heq := h.opened
  rw [heq, within_frames]

/-- A declared size is what is available inside. -/
theorem available_of_size (h : Opens c kind head heading c₁) {size : Nat}
    (hsize : heading.size = some size) : c₁.available = size := by
  have hframes := h.frames_eq
  simp only [available, bound, hframes, innermostEnd?, Heading.frame, hsize, Option.map_some,
    Option.getD_some, h.position_eq]
  omega

/-- Without a declared size the bound stays that of the container around. -/
theorem available_of_open (h : Opens c kind head heading c₁) (hsize : heading.size = none) :
    c₁.available = c.available - head.length := by
  have hframes := h.frames_eq
  simp only [available, bound, hframes, innermostEnd?, Heading.frame, hsize, Option.map_none,
    innermostEnd?_claimAll, h.size_eq, h.position_eq]
  omega

/-- The elements are offered inside if the container is offered outside. -/
theorem offers_body (h : Opens c kind head heading c₁)
    (hsize : ∀ size, heading.size = some size → body.length = size)
    (hoffers : c.Offers 1 (head ++ body)) : c₁.Offers heading.count body := by
  obtain ⟨hfits, ⟨rest, hrest⟩, -⟩ := hoffers
  have hframes := h.frames_eq
  refine ⟨?_, ⟨rest, ?_⟩, ?_⟩
  · cases hdeclared : heading.size with
    | none =>
        rw [h.available_of_open hdeclared]
        rw [List.length_append] at hfits
        omega
    | some size =>
        rw [h.available_of_size hdeclared]
        exact Nat.le_of_eq (hsize size hdeclared)
  · rw [h.unread_eq, ← hrest, List.append_assoc, List.drop_left]
  · intro frame outer hcons
    rw [hframes] at hcons
    cases hcons
    exact Nat.le_of_eq (Nat.zero_add _)

/-- What was passed inside is what the head declared, and it makes up the container
together with the head. -/
theorem leave (h : Opens c kind head heading c₁) (hpasses : c₁.Passes m body c₂)
    (hpop : pop kind c₂ = .ok () c') :
    m = heading.count ∧ (∀ size, heading.size = some size → body.length = size) ∧
      c.Passes 1 (head ++ body) c' := by
  have heq := h.opened
  obtain ⟨frame, outer, hcons, -, hcount, hend, rfl⟩ := pop_eq_ok_iff.mp hpop
  rw [hpasses.2, past_frames, heq, within_frames, claimAll_cons] at hcons
  cases hcons
  simp only [Heading.frame, Nat.zero_add] at hcount
  -- The frame was closed at its end, so the elements are as long as was declared.
  have hsize : ∀ size, heading.size = some size → body.length = size := by
    intro size hdeclared
    have hposition := hend (c.position + head.length + size) (by simp [Heading.frame, hdeclared])
    rw [hpasses.2, past_position, h.position_eq] at hposition
    omega
  refine ⟨hcount, hsize, ⟨?_, ?_, h.offers.spare⟩, ?_⟩
  · rw [List.length_append]
    have hhead := h.offers.fits
    have hbody := hpasses.1.fits
    cases hdeclared : heading.size with
    | none =>
        rw [h.available_of_open hdeclared] at hbody
        omega
    | some size =>
        rw [hsize size hdeclared]
        exact h.fits size hdeclared
  · obtain ⟨rest, hrest⟩ := h.offers.front
    obtain ⟨rest', hrest'⟩ := hpasses.1.front
    rw [h.unread_eq, ← hrest, List.drop_left] at hrest'
    exact ⟨rest', by rw [← hrest, ← hrest', List.append_assoc]⟩
  · rw [hpasses.2, heq]
    simp [past, within, advance, Nat.add_assoc]

/-- Behind the elements that its head declares, a container can be left. -/
theorem pop_eq_ok (h : Opens c kind head heading c₁)
    (hsize : ∀ size, heading.size = some size → body.length = size)
    (hpasses : c₁.Passes heading.count body c₂) :
    pop kind c₂ = .ok () (c₂.within (claimAll 1 c.frames)) := by
  have hframes := h.frames_eq
  have hcons := congrArg Cursor.frames hpasses.2
  rw [past_frames, hframes, claimAll_cons] at hcons
  refine pop_eq_ok_iff.mpr ⟨_, _, hcons, rfl, Nat.zero_add _, ?_, rfl⟩
  · intro e he
    obtain ⟨size, hdeclared, rfl⟩ := Option.map_eq_some_iff.mp he
    rw [hpasses.2, past_position, h.position_eq, hsize size hdeclared]

end Opens

section

variable {α ι ω : Type} {c : Cursor} {enter : Decoding ω} {kind : FrameKind} {make : ι → ω}
  {heads : HeadGrammar ι} {body : ω → Decoding α} {elements : ι → Grammar α}

/-- What has been entered and left again was opened, read and closed. -/
theorem Enters.exists_of_ok {β : Type} (henter : Enters c enter kind make heads) {f : ω → α → β}
    {result : β} {c' : Cursor}
    (h : (do let w ← enter; let value ← body w; pop kind; return f w value) c = .ok result c') :
    ∃ info head heading c₁ value c₂, result = f (make info) value ∧
      heads c.allowance head heading info ∧ head ≠ [] ∧ enter c = .ok (make info) c₁ ∧
        Opens c kind head heading c₁ ∧ body (make info) c₁ = .ok value c₂ ∧
          pop kind c₂ = .ok () c' := by
  obtain ⟨w, c₁, hopen, h⟩ := bind_eq_ok_iff.mp h
  obtain ⟨value, c₂, hread, h⟩ := bind_eq_ok_iff.mp h
  obtain ⟨_, c₃, hpop, h⟩ := bind_eq_ok_iff.mp h
  obtain ⟨rfl, rfl⟩ := pure_eq_ok_iff.mp h
  obtain ⟨head, heading, info, rfl, hheads, hne, hopens⟩ := henter.sound hopen
  exact ⟨info, head, heading, c₁, value, c₂, rfl, hheads, hne, hopen, hopens, hread, hpop⟩

/-- A reader that enters a container, reads the elements and leaves again follows the
grammar of the container. -/
theorem readsAt_container (henter : Enters c enter kind make heads)
    (hcoherent : ∀ w c₁, enter c = .ok w c₁ → c₁.Coherent)
    (hbody : ∀ info c₁, Inside c c₁ → ReadsAt c₁ (body (make info)) (elements info)) :
    ReadsAt c (do let w ← enter; let value ← body w; pop kind; return value)
      (Grammar.container heads elements) where
  sound h := by
    obtain ⟨info, head, heading, c₁, value, c₂, rfl, hheads, hne, hopen, hopens, hread, hpop⟩ :=
      henter.exists_of_ok h
    have hinside := hopens.inside hne (hcoherent _ c₁ hopen)
    obtain ⟨m, bs, helements, hpasses⟩ := (hbody info c₁ hinside).sound hread
    obtain ⟨rfl, hsize, hwhole⟩ := hopens.leave hpasses hpop
    rw [hopens.allowance_eq] at helements
    exact ⟨1, head ++ bs, ⟨rfl, hopens.room, head, heading, info, bs, rfl, hheads, hsize,
      helements⟩, hwhole⟩
  complete := by
    rintro bounds n _ value hbounds
      ⟨rfl, hroom, head, heading, info, bs, rfl, hheads, hsize, helements⟩ hoffers
    have hfits := hoffers.fits
    rw [List.length_append] at hfits
    obtain ⟨hne, c₁, hopen, hopens⟩ := henter.complete hbounds hheads hoffers.of_append
      (fun size hdeclared => by rw [← hsize size hdeclared]; exact hfits)
      (Nat.lt_of_lt_of_le hroom hbounds.1)
    have hinside := hopens.inside hne (hcoherent _ c₁ hopen)
    -- The frame takes one level from the bounds as it does from what is left.
    have hinner : bounds.inner ≤ c₁.allowance := by
      rw [hopens.allowance_eq]
      exact Limits.inner_le_inner hbounds
    obtain ⟨c₂, hread, hpasses⟩ := (hbody info c₁ hinside).complete hinner helements
      (hopens.offers_body hsize hoffers)
    have hpop := hopens.pop_eq_ok hsize hpasses
    obtain ⟨-, -, hwhole⟩ := hopens.leave hpasses hpop
    refine ⟨_, bind_eq_ok_iff.mpr ⟨_, c₁, hopen, bind_eq_ok_iff.mpr ⟨value, c₂, hread, ?_⟩⟩, hwhole⟩
    exact bind_eq_ok_iff.mpr ⟨(), _, hpop, rfl⟩

end

end AmqpEnvelope
