import AmqpEnvelope.Decode.Dispatch
import AmqpEnvelope.Proofs.Cursor.Coherence

/-!
# Grammars

A grammar says which byte strings stand for which values.  It knows no cursor: it is a
relation between bytes, the number of elements that they make up, and the value, under
the bounds that are left for nesting and for collections.

A reader and a grammar belong together at a cursor (`ReadsAt`) when they say the same
there.  What the reader accepts is a byte string of the grammar that the cursor offers,
and it is passed; and every byte string of the grammar is accepted wherever it is
offered, whatever stands around and behind it.  So what can be said of a grammar can be
said of its reader at every cursor, and all that a reader could learn from its
surroundings is shut out.

* `Cursor.Offers`, `Cursor.past`, `Cursor.Passes`: bytes that a cursor offers, and the
  cursor behind them.
* `ReadsAt.bind`: grammars are put together as readers are.
-/

namespace AmqpEnvelope

/-! ## Bounds that are left -/

/-- Bounds are compared one by one. -/
instance : LE Limits :=
  ⟨fun a b => a.maxDepth ≤ b.maxDepth ∧ a.maxCollectionLength ≤ b.maxCollectionLength⟩

namespace Limits

theorem le_refl (bounds : Limits) : bounds ≤ bounds := ⟨Nat.le_refl _, Nat.le_refl _⟩

/-- The bounds that are left inside one more container. -/
def inner (bounds : Limits) : Limits := { bounds with maxDepth := bounds.maxDepth - 1 }

theorem inner_le_inner {a b : Limits} (h : a ≤ b) : a.inner ≤ b.inner :=
  ⟨Nat.sub_le_sub_right h.1 1, h.2⟩

end Limits

/-! ## Grammars and their combinators -/

/-- Under the bounds that are left, this many elements in these bytes stand for the
value. -/
def Grammar (α : Type) := (bounds : Limits) → (elements : Nat) → Bytes → α → Prop

namespace Grammar

variable {α β : Type}

instance : Monad Grammar where
  pure a := fun _ elements bytes value => elements = 0 ∧ bytes = [] ∧ value = a
  bind g next := fun bounds elements bytes value =>
    ∃ m n front back a, elements = m + n ∧ bytes = front ++ back ∧
      g bounds m front a ∧ next a bounds n back value

/-- Nothing at all. -/
def fail : Grammar α := fun _ _ _ _ => False

/-- No bytes, for any value with a property. -/
def such (p : α → Prop) : Grammar α := fun _ elements bytes value =>
  elements = 0 ∧ bytes = [] ∧ p value

/-- One element is begun. -/
def element : Grammar Unit := fun _ elements bytes _ => elements = 1 ∧ bytes = []

/-- So many bytes, which stand for themselves. -/
def bytes (n : Nat) : Grammar Bytes := fun _ elements bytes value =>
  elements = 0 ∧ bytes = value ∧ value.length = n

/-- A format code. -/
def code : Grammar FormatCode := fun _ elements bytes format =>
  elements = 0 ∧ bytes = [format.toByte]

/-- A number of a given width. -/
def number (width : Nat) : Grammar Nat := BigEndian.toNat <$> bytes width

theorem bind_iff {g : Grammar α} {next : α → Grammar β} {bounds : Limits} {elements : Nat}
    {bs : Bytes} {value : β} :
    (g >>= next) bounds elements bs value ↔
      ∃ m n front back a, elements = m + n ∧ bs = front ++ back ∧
        g bounds m front a ∧ next a bounds n back value := Iff.rfl

theorem map_iff {f : α → β} {g : Grammar α} {bounds : Limits} {n : Nat} {bs : Bytes}
    {value : β} : (f <$> g) bounds n bs value ↔ ∃ a, g bounds n bs a ∧ value = f a := by
  constructor
  · rintro ⟨m, k, front, back, a, rfl, rfl, hg, rfl, rfl, rfl⟩
    rw [List.append_nil]
    exact ⟨a, hg, rfl⟩
  · rintro ⟨a, hg, rfl⟩
    exact ⟨n, 0, bs, [], a, rfl, (List.append_nil bs).symm, hg, rfl, rfl, rfl⟩

theorem number_iff {width value : Nat} {bounds : Limits} {n : Nat} {bs : Bytes} :
    number width bounds n bs value ↔
      n = 0 ∧ bs.length = width ∧ BigEndian.toNat bs = value := by
  rw [number, map_iff]
  constructor
  · rintro ⟨a, ⟨rfl, rfl, hlength⟩, rfl⟩
    exact ⟨rfl, hlength, rfl⟩
  · rintro ⟨rfl, hlength, rfl⟩
    exact ⟨bs, ⟨rfl, rfl, hlength⟩, rfl⟩

private theorem pure_bind_eq (a : α) (next : α → Grammar β) :
    (pure a : Grammar α) >>= next = next a := by
  funext bounds n bs value
  apply propext
  constructor
  · rintro ⟨_, _, _, back, _, rfl, rfl, ⟨rfl, rfl, rfl⟩, hnext⟩
    rw [Nat.zero_add]
    exact hnext
  · intro hnext
    exact ⟨0, n, [], bs, a, (Nat.zero_add n).symm, rfl, ⟨rfl, rfl, rfl⟩, hnext⟩

private theorem bind_assoc_eq {γ : Type} (g : Grammar α) (next : α → Grammar β)
    (last : β → Grammar γ) :
    g >>= next >>= last = g >>= fun a => next a >>= last := by
  funext bounds n bs value
  apply propext
  constructor
  · rintro ⟨_, k, _, back, b, rfl, rfl, ⟨l, m, front, middle, a, rfl, rfl, hg, hnext⟩, hlast⟩
    rw [Nat.add_assoc, List.append_assoc]
    exact ⟨l, m + k, front, middle ++ back, a, rfl, rfl, hg, m, k, middle, back, b, rfl, rfl,
      hnext, hlast⟩
  · rintro ⟨l, _, front, _, a, rfl, rfl, hg, m, k, middle, back, b, rfl, rfl, hnext, hlast⟩
    rw [← Nat.add_assoc, ← List.append_assoc]
    exact ⟨l + m, k, front ++ middle, back, b, rfl, rfl, ⟨l, m, front, middle, a, rfl, rfl, hg,
      hnext⟩, hlast⟩

instance : LawfulMonad Grammar :=
  LawfulMonad.mk' Grammar
    (fun g => by
      funext bounds n bs value
      apply propext
      rw [map_iff]
      exact ⟨fun ⟨_, hg, heq⟩ => heq ▸ hg, fun hg => ⟨value, hg, rfl⟩⟩)
    pure_bind_eq bind_assoc_eq

end Grammar

/-! ## Offered and passed bytes -/

namespace Cursor

/-- The frames with so many elements of the innermost one claimed. -/
def claimAll (n : Nat) : List Frame → List Frame
  | [] => []
  | frame :: outer => { frame with consumed := frame.consumed + n } :: outer

@[simp] theorem claimAll_nil (n : Nat) : claimAll n [] = [] := rfl

@[simp] theorem claimAll_cons (n : Nat) (frame : Frame) (outer : List Frame) :
    claimAll n (frame :: outer) =
      { frame with consumed := frame.consumed + n } :: outer := rfl

@[simp] theorem claimAll_zero (frames : List Frame) : claimAll 0 frames = frames := by
  cases frames <;> rfl

@[simp] theorem claimAll_claimAll (m n : Nat) (frames : List Frame) :
    claimAll n (claimAll m frames) = claimAll (m + n) frames := by
  cases frames with
  | nil => rfl
  | cons frame outer => simp [Nat.add_assoc]

@[simp] theorem length_claimAll (n : Nat) (frames : List Frame) :
    (claimAll n frames).length = frames.length := by
  cases frames <;> rfl

@[simp] theorem innermostEnd?_claimAll (n : Nat) (frames : List Frame) :
    innermostEnd? (claimAll n frames) = innermostEnd? frames := by
  cases frames <;> rfl

/-- The bounds that are left at a cursor. -/
def allowance (c : Cursor) : Limits := ⟨c.limits.maxDepth - c.depth, c.limits.maxCollectionLength⟩

/-- The next bytes before the bound are these, and so many elements may be claimed. -/
structure Offers (c : Cursor) (elements : Nat) (bytes : Bytes) : Prop where
  fits : bytes.length ≤ c.available
  front : bytes <+: c.unread
  spare : ∀ frame outer, c.frames = frame :: outer → frame.consumed + elements ≤ frame.count

/-- The cursor behind bytes that make up so many elements.  The types that were begun on
the way are no part of the place. -/
def past (c : Cursor) (elements : Nat) (bytes : Bytes) (entered : List String) : Cursor :=
  { c.advance bytes.length with frames := claimAll elements c.frames, entered := entered }

/-- Bytes that were offered have been passed. -/
def Passes (c : Cursor) (elements : Nat) (bytes : Bytes) (c' : Cursor) : Prop :=
  c.Offers elements bytes ∧ c' = c.past elements bytes c'.entered

section

variable (c : Cursor) (n : Nat) (bs : Bytes) (names : List String)

@[simp] theorem past_unread : (c.past n bs names).unread = c.unread.drop bs.length := rfl

@[simp] theorem past_position : (c.past n bs names).position = c.position + bs.length := rfl

@[simp] theorem past_size : (c.past n bs names).size = c.size := rfl

@[simp] theorem past_frames : (c.past n bs names).frames = claimAll n c.frames := rfl

@[simp] theorem past_limits : (c.past n bs names).limits = c.limits := rfl

@[simp] theorem past_root : (c.past n bs names).root = c.root := rfl

@[simp] theorem past_entered : (c.past n bs names).entered = names := rfl

@[simp] theorem past_depth : (c.past n bs names).depth = c.depth := length_claimAll n c.frames

@[simp] theorem past_bound : (c.past n bs names).bound = c.bound := by
  simp [bound]

@[simp] theorem past_available : (c.past n bs names).available = c.available - bs.length := by
  simp only [available, past_bound, past_position]
  omega

@[simp] theorem past_allowance : (c.past n bs names).allowance = c.allowance := by
  simp [allowance]

theorem past_nil : c.past 0 [] c.entered = c := by
  simp [past, advance]

theorem past_of_no_frames {c : Cursor} {n : Nat} (hframes : c.frames = []) :
    c.past n [] c.entered = c := by
  obtain ⟨unread, position, size, frames, limits, root, entered⟩ := c
  cases hframes
  rfl

theorem past_past (m : Nat) (as : Bytes) (names' : List String) :
    (c.past n bs names).past m as names' = c.past (n + m) (bs ++ as) names' := by
  simp [past, advance, Nat.add_assoc]

end

namespace Offers

variable {c : Cursor} {m n : Nat} {as bs : Bytes}

theorem nil : c.Offers 0 [] ↔ ∀ frame outer, c.frames = frame :: outer →
    frame.consumed ≤ frame.count :=
  ⟨fun h => h.spare, fun h => ⟨Nat.zero_le _, List.nil_prefix, h⟩⟩

/-- What is offered in sequence is offered one after the other. -/
theorem append_iff (names : List String) :
    c.Offers (m + n) (as ++ bs) ↔ c.Offers m as ∧ (c.past m as names).Offers n bs := by
  constructor
  · rintro ⟨hfits, ⟨rest, hrest⟩, hspare⟩
    rw [List.length_append] at hfits
    refine ⟨⟨by omega, ⟨bs ++ rest, by rw [← hrest, List.append_assoc]⟩, ?_⟩, ?_, ?_, ?_⟩
    · intro frame outer hframes
      have := hspare frame outer hframes
      omega
    · rw [past_available]
      omega
    · rw [past_unread, ← hrest, List.append_assoc, List.drop_left]
      exact List.prefix_append bs rest
    · intro frame outer hframes
      rw [past_frames] at hframes
      cases hc : c.frames with
      | nil => simp [hc] at hframes
      | cons frame' outer' =>
          rw [hc, claimAll_cons] at hframes
          cases hframes
          have := hspare frame' outer hc
          simp only
          omega
  · rintro ⟨⟨hfits, ⟨rest, hrest⟩, -⟩, hfits', hfront', hspare'⟩
    rw [past_available] at hfits'
    rw [past_unread, ← hrest, List.drop_left] at hfront'
    obtain ⟨rest', rfl⟩ := hfront'
    refine ⟨?_, ⟨rest', ?_⟩, ?_⟩
    · rw [List.length_append]
      omega
    · rw [← hrest, List.append_assoc]
    · intro frame outer hframes
      have := hspare' { frame with consumed := frame.consumed + m } outer (by simp [hframes])
      simp only at this
      omega

/-- A beginning of what is offered is offered. -/
theorem of_append (h : c.Offers n (as ++ bs)) : c.Offers n as :=
  ((@append_iff c n 0 as bs c.entered).mp h).1

theorem take_eq (h : c.Offers n bs) : c.unread.take bs.length = bs :=
  (List.prefix_iff_eq_take.mp h.front).symm

/-- The next byte is the first that is offered. -/
theorem peekByte?_eq (h : c.Offers n bs) (hne : bs ≠ []) : c.peekByte? = bs.head? := by
  obtain ⟨rest, hrest⟩ := h.front
  have hfits := h.fits
  have hlength := List.length_pos_iff.mpr hne
  unfold available at hfits
  rw [peekByte?, if_pos (by omega), ← hrest]
  cases bs with
  | nil => exact absurd rfl hne
  | cons byte more => rfl

theorem passes (h : c.Offers n bs) (names : List String) :
    c.Passes n bs (c.past n bs names) := ⟨h, rfl⟩

end Offers

namespace Passes

variable {c c₁ c₂ : Cursor} {m n : Nat} {as bs : Bytes}

theorem trans (h : c.Passes m as c₁) (h' : c₁.Passes n bs c₂) :
    c.Passes (m + n) (as ++ bs) c₂ := by
  obtain ⟨hoffers, heq⟩ := h
  obtain ⟨hoffers', heq'⟩ := h'
  rw [heq] at hoffers' heq'
  refine ⟨(Offers.append_iff c₁.entered).mpr ⟨hoffers, hoffers'⟩, ?_⟩
  rw [past_past] at heq'
  exact heq'

/-- What was offered behind the bytes that are passed is offered next. -/
theorem offers_rest (h : c.Passes m as c₁) (hoffers : c.Offers (m + n) (as ++ bs)) :
    c₁.Offers n bs := by
  rw [h.2]
  exact ((Offers.append_iff c₁.entered).mp hoffers).2

theorem allowance_eq (h : c.Passes n bs c₁) : c₁.allowance = c.allowance := by
  rw [h.2, past_allowance]

/-- Whatever is passed in a frame, the frame stays open. -/
theorem frames_ne_nil (h : c.Passes n bs c₁) (hframes : c.frames ≠ []) : c₁.frames ≠ [] := by
  rw [h.2, past_frames]
  cases hcons : c.frames with
  | nil => exact absurd hcons hframes
  | cons frame outer => exact List.cons_ne_nil _ _

end Passes

/-- Claiming elements changes no frame but the innermost. -/
theorem forall_mem_claimAll {p : Frame → Prop} {n : Nat} {frames : List Frame}
    (hfirst : ∀ frame outer, frames = frame :: outer →
      p { frame with consumed := frame.consumed + n })
    (hall : ∀ frame ∈ frames, p frame) : ∀ frame ∈ claimAll n frames, p frame := by
  cases frames with
  | nil => exact hall
  | cons frame outer =>
      rw [List.forall_mem_cons] at hall
      exact List.forall_mem_cons.mpr ⟨hfirst frame outer rfl, hall.2⟩

theorem EndsNest.claimAll {size low n : Nat} {frames : List Frame} (h : EndsNest size low frames) :
    EndsNest size low (claimAll n frames) := by
  cases frames <;> exact h

/-- Passing what is offered keeps the bookkeeping in order. -/
theorem Coherent.past {c : Cursor} {n : Nat} {bs : Bytes} (hc : c.Coherent)
    (h : c.Offers n bs) (names : List String) : (c.past n bs names).Coherent := by
  have hlength := hc.position_add_length
  have havailable := hc.position_add_available
  have hsize := hc.bound_le_size
  have hfits := h.fits
  have hnested : EndsNest c.size (c.position + bs.length) c.frames :=
    hc.nested.raise (by change _ ≤ c.bound; omega)
  refine ⟨?_, hnested.claimAll, ?_, ?_, ?_, ?_⟩
  · simp only [past_position, past_unread, List.length_drop, past_size]
    omega
  · exact forall_mem_claimAll h.spare hc.consumed_le
  · refine forall_mem_claimAll (fun frame outer hframes => ?_) hc.count_le
    exact hc.count_le frame (by rw [hframes]; exact List.mem_cons_self)
  · rw [past_depth, past_limits]
    exact hc.depth_le
  · intro depth place hroot
    have hle := hc.root_le depth place hroot
    rw [past_position]
    omega

end Cursor

/-! ## Readers and their grammars -/

open Cursor

/-- A reader and a grammar say the same at a cursor.  Bounds that are tighter than those
left at the cursor may be assumed of the bytes, so a grammar that a reader follows grows
with the bounds. -/
structure ReadsAt {α : Type} (c : Cursor) (reader : Decoding α) (g : Grammar α) : Prop where
  /-- What is accepted is in the grammar, and it is passed. -/
  sound : ∀ {value : α} {c' : Cursor}, reader c = .ok value c' →
    ∃ n bs, g c.allowance n bs value ∧ c.Passes n bs c'
  /-- What is in the grammar and is offered is accepted and passed. -/
  complete : ∀ {bounds : Limits} {n : Nat} {bs : Bytes} {value : α}, bounds ≤ c.allowance →
    g bounds n bs value → c.Offers n bs → ∃ c', reader c = .ok value c' ∧ c.Passes n bs c'

namespace ReadsAt

variable {α β γ : Type} {c : Cursor}

theorem pure (hc : c.Coherent) (a : α) : ReadsAt c (pure a) (pure a) where
  sound h := by
    obtain ⟨rfl, rfl⟩ := pure_eq_ok_iff.mp h
    exact ⟨0, [], ⟨rfl, rfl, rfl⟩, Offers.nil.mpr hc.innermost_consumed_le,
      past_nil c |>.symm⟩
  complete := by
    rintro bounds n bs value - ⟨rfl, rfl, rfl⟩ hoffers
    exact ⟨c, rfl, hoffers, past_nil c |>.symm⟩

theorem throw (e : DecodeError) : ReadsAt c (throw e : Decoding α) Grammar.fail where
  sound h := absurd h throw_ne_ok
  complete _ h _ := h.elim

/-- A sequence follows a sequence.  The first reader may answer with more than its
grammar speaks of, such as offsets; then only `view` of its answer counts. -/
theorem bind_view {reader : Decoding γ} {view : γ → α} {g : Grammar α}
    {next : γ → Decoding β} {follow : α → Grammar β} (hreader : ReadsAt c (view <$> reader) g)
    (hnext : ∀ a n bs c₁, c.Passes n bs c₁ → reader c = .ok a c₁ →
      ReadsAt c₁ (next a) (follow (view a))) :
    ReadsAt c (reader >>= next) (g >>= follow) where
  sound := by
    intro value c' h
    obtain ⟨a, c₁, hfirst, hsecond⟩ := bind_eq_ok_iff.mp h
    obtain ⟨m, front, hg, hpasses⟩ := hreader.sound (map_eq_ok_iff.mpr ⟨a, hfirst, rfl⟩)
    obtain ⟨n, back, hfollow, hpasses'⟩ := (hnext a m front c₁ hpasses hfirst).sound hsecond
    rw [hpasses.allowance_eq] at hfollow
    exact ⟨m + n, front ++ back, ⟨m, n, front, back, view a, rfl, rfl, hg, hfollow⟩,
      hpasses.trans hpasses'⟩
  complete := by
    rintro bounds _ _ value hbounds ⟨m, n, front, back, a, rfl, rfl, hg, hfollow⟩ hoffers
    obtain ⟨hfront, -⟩ := (Offers.append_iff c.entered).mp hoffers
    obtain ⟨c₁, hviewed, hpasses⟩ := hreader.complete hbounds hg hfront
    obtain ⟨a', hfirst, rfl⟩ := map_eq_ok_iff.mp hviewed
    have hback : c₁.Offers n back := hpasses.offers_rest hoffers
    rw [← hpasses.allowance_eq] at hbounds
    obtain ⟨c₂, hsecond, hpasses'⟩ :=
      (hnext a' m front c₁ hpasses hfirst).complete hbounds hfollow hback
    exact ⟨c₂, bind_eq_ok_iff.mpr ⟨a', c₁, hfirst, hsecond⟩, hpasses.trans hpasses'⟩

theorem bind {reader : Decoding α} {g : Grammar α} {next : α → Decoding β}
    {follow : α → Grammar β} (hreader : ReadsAt c reader g)
    (hnext : ∀ a n bs c₁, c.Passes n bs c₁ → ReadsAt c₁ (next a) (follow a)) :
    ReadsAt c (reader >>= next) (g >>= follow) := by
  have hviewed : ReadsAt c (id <$> reader) g := by rwa [id_map]
  exact hviewed.bind_view fun a n bs c₁ h _ => hnext a n bs c₁ h

theorem map {reader : Decoding α} {g : Grammar α} (f : α → β) (hreader : ReadsAt c reader g) :
    ReadsAt c (f <$> reader) (f <$> g) where
  sound h := by
    obtain ⟨a, hok, rfl⟩ := map_eq_ok_iff.mp h
    obtain ⟨n, bs, hg, hpasses⟩ := hreader.sound hok
    exact ⟨n, bs, Grammar.map_iff.mpr ⟨a, hg, rfl⟩, hpasses⟩
  complete hbounds hmap hoffers := by
    obtain ⟨a, hg, rfl⟩ := Grammar.map_iff.mp hmap
    obtain ⟨c', h, hpasses⟩ := hreader.complete hbounds hg hoffers
    exact ⟨c', map_eq_ok_iff.mpr ⟨a, h, rfl⟩, hpasses⟩

/-- Looking at the cursor reads nothing. -/
theorem asks {f : Cursor → α} {next : α → Decoding β} {g : Grammar β}
    (hnext : ReadsAt c (next (f c)) g) : ReadsAt c (Cursor.asks f >>= next) g :=
  ⟨hnext.sound, hnext.complete⟩

theorem get {next : Cursor → Decoding β} {g : Grammar β} (hnext : ReadsAt c (next c) g) :
    ReadsAt c (get >>= next) g :=
  ⟨hnext.sound, hnext.complete⟩

/-- Noting a type reads nothing. -/
theorem begun {k : Kind} {fields : Decoding α} {g : Grammar α}
    (hfields : ReadsAt { c with entered := k.typeName :: c.entered } fields g) :
    ReadsAt c (Decode.begun k fields) g where
  sound h := by
    obtain ⟨n, bs, hg, ⟨hfits, hfront, hspare⟩, heq⟩ := hfields.sound h
    exact ⟨n, bs, hg, ⟨hfits, hfront, hspare⟩, heq⟩
  complete hbounds hg hoffers := by
    obtain ⟨c', h, -, heq⟩ := hfields.complete hbounds hg
      ⟨hoffers.fits, hoffers.front, hoffers.spare⟩
    exact ⟨c', h, hoffers, heq⟩

/-- Grammars with the same byte strings are read by the same readers. -/
theorem of_iff {reader : Decoding α} {g g' : Grammar α} (h : ReadsAt c reader g)
    (hiff : ∀ {bounds n bs value}, g bounds n bs value ↔ g' bounds n bs value) :
    ReadsAt c reader g' where
  sound hok := by
    obtain ⟨n, bs, hg, hpasses⟩ := h.sound hok
    exact ⟨n, bs, hiff.mp hg, hpasses⟩
  complete hbounds hg hoffers := h.complete hbounds (hiff.mpr hg) hoffers

theorem congr {reader reader' : Decoding α} {g : Grammar α} (h : ReadsAt c reader g)
    (heq : reader' c = reader c) : ReadsAt c reader' g :=
  ⟨fun hok => h.sound (heq ▸ hok), fun hbounds hg hoffers => heq ▸ h.complete hbounds hg hoffers⟩

end ReadsAt

/-! ## Raw access -/

section

variable {c : Cursor}

theorem readsAt_take (hc : c.Coherent) (n : Nat) (what : String) :
    ReadsAt c (take n what) (Grammar.bytes n) where
  sound h := by
    obtain ⟨hfits, rfl, rfl⟩ := take_eq_ok_iff.mp h
    have hlength : (c.unread.take n).length = n := by
      rw [List.length_take]
      exact Nat.min_eq_left (Nat.le_trans hfits hc.available_le_length)
    refine ⟨0, c.unread.take n, ⟨rfl, rfl, hlength⟩,
      ⟨?_, List.take_prefix n _, hc.innermost_consumed_le⟩, ?_⟩
    · rwa [hlength]
    · simp [past, hlength, advance]
  complete := by
    rintro bounds _ bs value - ⟨rfl, rfl, rfl⟩ hoffers
    refine ⟨c.past 0 bs c.entered, take_eq_ok_iff.mpr ⟨hoffers.fits, ?_, ?_⟩,
      hoffers.passes c.entered⟩
    · exact hoffers.take_eq.symm
    · simp [past, advance]

theorem readsAt_number (hc : c.Coherent) (width : Nat) (what : String) :
    ReadsAt c (number width what) (Grammar.number width) :=
  (readsAt_take hc width what).map BigEndian.toNat

theorem readsAt_claim (hc : c.Coherent) (what : String) :
    ReadsAt c (claim what) Grammar.element where
  sound h := by
    rcases claim_eq_ok_iff.mp h with ⟨hframes, rfl⟩ | ⟨frame, outer, hframes, hspare, rfl⟩
    · refine ⟨1, [], ⟨rfl, rfl⟩, ⟨Nat.zero_le _, List.nil_prefix, ?_⟩, ?_⟩
      · simp [hframes]
      · exact (past_of_no_frames hframes).symm
    · refine ⟨1, [], ⟨rfl, rfl⟩, ⟨Nat.zero_le _, List.nil_prefix, ?_⟩, ?_⟩
      · intro frame' outer' hframes'
        rw [hframes] at hframes'
        cases hframes'
        exact hspare
      · simp [past, advance, hframes, within, Frame.claimed]
  complete := by
    rintro bounds _ bs value - ⟨rfl, rfl⟩ hoffers
    refine ⟨c.past 1 [] c.entered, claim_eq_ok_iff.mpr ?_, hoffers.passes c.entered⟩
    cases hframes : c.frames with
    | nil => exact .inl ⟨rfl, past_of_no_frames hframes⟩
    | cons frame outer =>
        refine .inr ⟨frame, outer, rfl, hoffers.spare frame outer hframes, ?_⟩
        simp [past, advance, hframes, within, Frame.claimed]

end

end AmqpEnvelope
