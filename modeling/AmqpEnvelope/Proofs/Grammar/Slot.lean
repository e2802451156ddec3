import AmqpEnvelope.Proofs.Grammar.Typed
import AmqpEnvelope.Proofs.Registry.Declared

/-!
# The grammar of slots

What a slot may hold under a registry: null, a composite that a constructor decodes, or,
where none is registered, any composite that the settings say to keep.  The recursion of
slots in slots is cut at a number of levels; as soon as there are more of them than room
for nesting, the grammar is what the decoder reads (`readsAt_slot`, `readsAt_target`).

The only thing around a slot that its grammar depends on is whether the slot is the root,
for which the settings may say something else.  Slots in other values never are.
-/

namespace AmqpEnvelope

open Cursor

/-! ## Descriptors in front -/

/-- The bytes start like a described value whose descriptor stands for the given key. -/
def Headed (d : Descriptor) (bytes : Bytes) : Prop :=
  ∃ head raw body, bytes = FormatCode.described.toByte :: (head ++ body) ∧
    (∀ bounds, Grammar.descriptor bounds 0 head raw) ∧ raw.descriptor = d

theorem Grammar.descriptor_of_bounds {bounds : Limits} {n : Nat} {bs : Bytes}
    {raw : RawDescriptor} (h : descriptor bounds n bs raw) (bounds' : Limits) :
    descriptor bounds' n bs raw :=
  descriptor_iff.mpr (descriptor_iff.mp h)

/-- A described value is headed by the key of its descriptor. -/
theorem headed_of_described {α : Type} {g : RawDescriptor → Grammar α} {bounds : Limits}
    {n : Nat} {bs : Bytes} {value : α} (h : Grammar.described g bounds n bs value) :
    ∃ d, Headed d bs := by
  obtain ⟨-, -, _, _, raw, body, rfl, ⟨-, head, rfl, hraw⟩, -, -⟩ := h
  exact ⟨raw.descriptor, head, raw, body, rfl, Grammar.descriptor_of_bounds hraw, rfl⟩

section

variable {c : Cursor}

/-- The descriptor in front of what is offered is the one that is seen from here. -/
theorem peekDescriptor_eq_ok (hc : c.Coherent) {n : Nat} {bs : Bytes} (hoffers : c.Offers n bs)
    {d : Descriptor} (hheaded : Headed d bs) : peekDescriptor c = .ok (some d) c := by
  obtain ⟨head, raw, body, rfl, hraw, rfl⟩ := hheaded
  have hmarker : c.Offers (0 + (0 + n)) ([FormatCode.described.toByte] ++ (head ++ body)) := by
    rw [Nat.zero_add, Nat.zero_add]
    exact hoffers
  obtain ⟨hfirst, hrest⟩ := (Offers.append_iff c.entered).mp hmarker
  obtain ⟨hhead, -⟩ := (Offers.append_iff c.entered).mp hrest
  have hmoved : c.past 0 [FormatCode.described.toByte] c.entered = c.advance 1 := by
    simp [past, advance]
  have hc₁ := hc.past hfirst c.entered
  rw [hmoved] at hhead hc₁
  obtain ⟨c₂, hread, -⟩ :=
    (readsAt_rawDescriptor hc₁).complete (Limits.le_refl _) (hraw _) hhead
  have hbyte := hoffers.peekByte?_eq (List.cons_ne_nil _ _)
  simp only [peekDescriptor, hbyte, List.head?_cons, if_true, hread]

theorem peekDescriptor_stays {found : Option Descriptor} {c' : Cursor}
    (h : peekDescriptor c = .ok found c') : c' = c := by
  unfold peekDescriptor at h
  split at h
  · cases hraw : rawDescriptor (c.advance 1) with
    | ok raw c₁ =>
        rw [hraw] at h
        cases h
        rfl
    | error e c₁ =>
        rw [hraw] at h
        cases h
  · cases h
    rfl

/-- In front of a descriptor there is a marker. -/
theorem marker_of_peekDescriptor {d : Descriptor} {c' : Cursor}
    (h : peekDescriptor c = .ok (some d) c') :
    c.peekByte? = some FormatCode.described.toByte := by
  refine Decidable.byContradiction fun hmarker => ?_
  rw [peekDescriptor, if_neg hmarker] at h
  cases h

end

/-! ## Composites in slots -/

namespace Grammar

/-- What a constructor makes of a composite, behind its head if it is entered before. -/
def content (registry : Registry) (slots : Grammar Value) : Constructor → Grammar Value
  | .described k => .known <$> fields registry slots k
  | .nestedStream => .serialized <$> serializedBytes
  | .scripted _ => fail

/-- A composite that a constructor decodes. -/
def constructed (registry : Registry) (slots : Grammar Value) (k : Constructor) : Grammar Value :=
  match k.entry with
  | .dispatched => composite fun _ => content registry slots k
  | .selfDescribing => content registry slots k

/-- Any described value, which is kept as it is. -/
def kept (d : Descriptor) : Grammar Value := fun bounds n bs value =>
  n = 1 ∧ Extent bounds.maxDepth bs ∧ ∃ head raw body,
    bs = FormatCode.described.toByte :: (head ++ body) ∧
      (∀ bounds, descriptor bounds 0 head raw) ∧ raw.descriptor = d ∧
        value = .captured (.of d bs (1 + head.length))

/-- A composite with a given descriptor, in the root slot or in another. -/
def dispatched (registry : Registry) (slots : Grammar Value) (root : Bool) (d : Descriptor) :
    Grammar Value :=
  match registry.resolve d with
  | some k => constructed registry slots k
  | none =>
      match registry.settings.unknownTypes.actionFor root with
      | .reject => fail
      | .capture => kept d

/-- A composite by its descriptor. -/
def headed (composites : Descriptor → Grammar Value) : Grammar Value :=
  fun bounds n bs value => ∃ d, Headed d bs ∧ composites d bounds n bs value

/-- A slot: null, or a composite by its descriptor. -/
def slotWith (composites : Descriptor → Grammar Value) : Grammar Value :=
  nullOr .null (headed composites)

/-- A slot in which slots nest no deeper than the given number of levels. -/
def slot (registry : Registry) : (levels : Nat) → (root : Bool) → Grammar Value
  | 0, _ => fail
  | levels + 1, root => slotWith (dispatched registry (slot registry levels false) root)

/-- What a target stands for. -/
def target (registry : Registry) (levels : Nat) (root : Bool) :
    (t : Target) → Grammar t.Carrier
  | .slot => slot registry levels root
  | .kind k => kind registry (slot registry levels false) k

/-- A composite is made by the constructor of its descriptor, or kept because there is none. -/
theorem dispatched_cases {registry : Registry} {slots : Grammar Value} {root : Bool}
    {d : Descriptor} {bounds : Limits} {n : Nat} {bs : Bytes} {value : Value}
    (h : dispatched registry slots root d bounds n bs value) :
    (∃ k, registry.resolve d = some k ∧ constructed registry slots k bounds n bs value) ∨
      registry.resolve d = none ∧ kept d bounds n bs value := by
  unfold dispatched at h
  cases hresolve : registry.resolve d with
  | some k =>
      rw [hresolve] at h
      exact .inl ⟨k, rfl, h⟩
  | none =>
      rw [hresolve] at h
      cases haction : registry.settings.unknownTypes.actionFor root with
      | reject =>
          simp only [haction] at h
          exact h.elim
      | capture =>
          simp only [haction] at h
          exact .inr ⟨rfl, h⟩

end Grammar

/-! ## Extents -/

namespace Spans

theorem constructed (registry : Registry) (slots : Grammar Value) (k : Constructor) :
    Spans (Grammar.constructed registry slots k) := by
  unfold Grammar.constructed
  split
  · exact composite _
  next hentry =>
    cases k with
    | described k => exact Spans.map _ (selfDescribing registry slots hentry)
    | nestedStream => cases hentry
    | scripted script => exact Spans.fail

theorem dispatched (registry : Registry) (slots : Grammar Value) (root : Bool) (d : Descriptor) :
    Spans (Grammar.dispatched registry slots root d) := by
  intro bounds n bs value h
  rcases Grammar.dispatched_cases h with ⟨k, -, hmade⟩ | ⟨-, hkept⟩
  · exact constructed registry slots k hmade
  · exact ⟨hkept.1, hkept.2.1⟩

theorem headed {composites : Descriptor → Grammar Value} (h : ∀ d, Spans (composites d)) :
    Spans (Grammar.headed composites) := by
  rintro bounds n bs value ⟨d, -, hcomposite⟩
  exact h d hcomposite

theorem slot (registry : Registry) (levels : Nat) (root : Bool) :
    Spans (Grammar.slot registry levels root) := by
  cases levels with
  | zero => exact Spans.fail
  | succ levels => exact nullOr .null (headed fun d => dispatched registry _ root d)

theorem target (registry : Registry) (levels : Nat) (root : Bool) (t : Target) :
    Spans (Grammar.target registry levels root t) := by
  cases t with
  | slot => exact slot registry levels root
  | kind k => exact kind registry _ k

end Spans

/-! ## Readers of composites -/

section

variable {registry : Registry} {resolver : Resolver} {slots : Grammar Value} {c : Cursor}

/-- What a constructor makes a value of starts with a descriptor. -/
theorem headed_of_constructed {k : Constructor} {bounds : Limits} {n : Nat} {bs : Bytes}
    {value : Value} (h : Grammar.constructed registry slots k bounds n bs value) :
    ∃ d, Headed d bs := by
  unfold Grammar.constructed at h
  cases hentry : k.entry with
  | dispatched =>
      rw [hentry] at h
      exact headed_of_described h
  | selfDescribing =>
      rw [hentry] at h
      cases k with
      | described k =>
          obtain ⟨known, hfields, -⟩ := Grammar.map_iff.mp h
          cases k with
          | publicKey =>
              obtain ⟨key, hkey, -⟩ := Grammar.map_iff.mp hfields
              obtain ⟨x509, hdescribed, -⟩ := Grammar.map_iff.mp hkey
              exact headed_of_described hdescribed
          | throwable => exact hfields.elim
          | _ => cases hentry
      | nestedStream => cases hentry
      | scripted script => exact h.elim

/-- Whatever is decoded by its descriptor starts with one. -/
theorem headed_of_dispatched {root : Bool} {d : Descriptor} {bounds : Limits} {n : Nat}
    {bs : Bytes} {value : Value}
    (h : Grammar.dispatched registry slots root d bounds n bs value) : ∃ d', Headed d' bs := by
  rcases Grammar.dispatched_cases h with ⟨k, -, hmade⟩ | ⟨-, hkept⟩
  · exact headed_of_constructed hmade
  · obtain ⟨-, -, head, raw, body, rfl, hraw, -, -⟩ := hkept
    exact ⟨raw.descriptor, head, raw, body, rfl, hraw, rfl⟩

/-- The descriptor in front of a described value is the first of the two extents that its
own is made of. -/
theorem eq_head_append_of_offers {m n room : Nat} {head bs : Bytes} {raw : RawDescriptor}
    {bounds : Limits} (hhead : c.Offers m (FormatCode.described.toByte :: head))
    (hraw : Grammar.descriptor bounds 0 head raw) (hbs : c.Offers n bs)
    (hextent : Extent room bs) :
    ∃ body, bs = FormatCode.described.toByte :: (head ++ body) := by
  obtain ⟨x, hx⟩ := hhead.front
  obtain ⟨y, hy⟩ := hbs.front
  have hsame := hx.trans hy.symm
  cases bs with
  | nil => exact absurd rfl hextent.ne_nil
  | cons byte rest =>
      obtain ⟨rfl, hrest⟩ := List.cons.inj hsame
      obtain ⟨inner, descriptor, body, -, rfl, hdescriptor, -⟩ := Extent.described_iff.mp hextent
      obtain ⟨-, hfirst⟩ := Extent.of_descriptor hraw inner
      obtain rfl := hfirst.unique hdescriptor (hrest.trans (List.append_assoc _ _ _))
      exact ⟨body, rfl⟩

/-- A composite is kept with its body set apart behind the descriptor. -/
theorem readsAt_captureComposite (hc : c.Coherent) {d : Descriptor}
    (hpeek : peekDescriptor c = .ok (some d) c) :
    ReadsAt c (Decode.captureComposite d) (Grammar.kept d) where
  sound := by
    intro value c' h
    obtain ⟨_, _, hstart, h⟩ := bind_eq_ok_iff.mp h
    obtain ⟨rfl, rfl⟩ := asks_eq_ok_iff.mp hstart
    obtain ⟨_, _, hprobe, h⟩ := bind_eq_ok_iff.mp h
    obtain ⟨⟨c₂, hbegin⟩, rfl⟩ := probe_eq_ok_iff.mp hprobe
    obtain ⟨opening, c₁, hopen, hasks⟩ := bind_eq_ok_iff.mp hbegin
    obtain ⟨rfl, -⟩ := asks_eq_ok_iff.mp hasks
    obtain ⟨captured, c₃, hcapture, h⟩ := bind_eq_ok_iff.mp h
    obtain ⟨rfl, rfl⟩ := pure_eq_ok_iff.mp h
    obtain ⟨_, _, _, rfl, ⟨rfl, head, rfl, hraw⟩, -, hopens⟩ :=
      (enters_beginDescribed hc).sound hopen
    obtain ⟨_, bs, ⟨rfl, hextent, rfl⟩, hpasses⟩ := (readsAt_capture hc).sound hcapture
    obtain ⟨body, rfl⟩ := eq_head_append_of_offers hopens.offers hraw hpasses.1 hextent
    -- The descriptor in front of what is kept is the one that was looked for.
    have hraw := Grammar.descriptor_of_bounds hraw
    have hpeek' := peekDescriptor_eq_ok hc hpasses.1 ⟨head, _, body, rfl, hraw, rfl⟩
    rw [hpeek] at hpeek'
    cases hpeek'
    refine ⟨1, _, ⟨rfl, hextent, head, _, body, rfl, hraw, rfl, ?_⟩, hpasses⟩
    rw [hopens.position_eq, Nat.add_sub_cancel_left, List.length_cons, Nat.add_comm]
  complete := by
    rintro bounds n _ _ hbounds ⟨rfl, hextent, head, raw, body, rfl, hraw, hd, rfl⟩ hoffers
    obtain ⟨inner, -, -, hmax, -⟩ := Extent.described_iff.mp hextent
    have hroom : 0 < c.allowance.maxDepth := Nat.lt_of_lt_of_le (by omega) hbounds.1
    have hfront : c.Offers 1 (FormatCode.described.toByte :: head) := by
      rw [← List.cons_append] at hoffers
      exact hoffers.of_append
    obtain ⟨-, c₁, hopen, hopens⟩ :=
      (enters_beginDescribed hc).complete hbounds ⟨rfl, head, rfl, hraw bounds⟩ hfront nofun hroom
    obtain ⟨c', hcapture, hpasses⟩ :=
      (readsAt_capture hc).complete hbounds ⟨rfl, hextent, rfl⟩ hoffers
    have hposition : c₁.position - c.position = 1 + head.length := by
      rw [hopens.position_eq, Nat.add_sub_cancel_left, List.length_cons, Nat.add_comm]
    have hprobe : probe (do let _ ← beginDescribed; asks Cursor.position) c =
        .ok c₁.position c :=
      probe_eq_ok_iff.mpr ⟨⟨c₁, bind_eq_ok_iff.mpr ⟨_, c₁, hopen, rfl⟩⟩, rfl⟩
    refine ⟨c', ?_, hpasses⟩
    refine bind_eq_ok_iff.mpr ⟨c.position, c, rfl, ?_⟩
    refine bind_eq_ok_iff.mpr ⟨c₁.position, c, hprobe, ?_⟩
    rw [← hposition]
    exact bind_eq_ok_iff.mpr ⟨_, c', hcapture, rfl⟩

theorem readsInside_constructorBody {k : Constructor} (hk : k.IsTyped) (hslots : Spans slots)
    (hslot : ReadsInside c (Decode.slot resolver) slots) :
    ReadsInside c (Decode.constructorBody registry resolver k)
      (Grammar.content registry slots k) := by
  rcases hk with ⟨kind, rfl⟩ | rfl
  · exact (readsInside_fields hslots hslot kind).begun.map _
  · exact readsInside_serializedBytesFields.begun.map _

theorem readsAt_invoke (hc : c.Coherent) {k : Constructor} (hk : k.IsTyped)
    (hslots : Spans slots) (hslot : ReadsInside c (Decode.slot resolver) slots) :
    ReadsAt c (Decode.invoke registry resolver k) (Grammar.constructed registry slots k) := by
  unfold Decode.invoke Grammar.constructed
  cases hentry : k.entry with
  | dispatched =>
      exact readsAt_composite hc fun _ => readsInside_constructorBody hk hslots hslot
  | selfDescribing =>
      rcases hk with ⟨kind, rfl⟩ | rfl
      · have hc₁ := (Move.begin (c := c) kind.typeName).coherent hc
        exact (ReadsAt.begun (readsAt_selfDescribing hc₁ hentry)).map _
      · cases hentry

theorem readsAt_dispatchWith (hc : c.Coherent) (hregistry : registry.Declared)
    (hslots : Spans slots) (hslot : ReadsInside c (Decode.slot resolver) slots) {d : Descriptor}
    (hpeek : peekDescriptor c = .ok (some d) c) :
    ReadsAt c (Decode.dispatchWith registry resolver d)
      (Grammar.dispatched registry slots c.atRootSlot d) := by
  unfold Decode.dispatchWith Grammar.dispatched
  cases hresolve : registry.resolve d with
  | some k => exact readsAt_invoke hc (hregistry.isTyped_of_resolve d k hresolve) hslots hslot
  | none =>
      refine .get ?_
      dsimp only
      cases registry.settings.unknownTypes.actionFor c.atRootSlot with
      | reject => exact .throw _
      | capture => exact readsAt_captureComposite hc hpeek

/-- Which descriptor a composite has is seen without a move, so only that descriptor's
composites have to be read right. -/
theorem readsAt_headed (hc : c.Coherent) {composites : Descriptor → Grammar Value}
    (hheaded : ∀ {d bounds n bs value}, composites d bounds n bs value → ∃ d', Headed d' bs)
    (hcomposites : ∀ {d}, peekDescriptor c = .ok (some d) c →
      ReadsAt c (resolver d) (composites d)) :
    ReadsAt c (do
      match ← peekDescriptor with
      | some descriptor => resolver descriptor
      | none =>
          let c ← get
          mismatch (.slotFormat c.peekByte?) c.position) (Grammar.headed composites) where
  sound h := by
    obtain ⟨found, c₁, hpeek, hresolve⟩ := bind_eq_ok_iff.mp h
    obtain rfl := peekDescriptor_stays hpeek
    cases found with
    | none =>
        obtain ⟨_, _, -, hrefuse⟩ := bind_eq_ok_iff.mp hresolve
        exact absurd hrefuse throw_ne_ok
    | some d =>
        obtain ⟨n, bs, hcomposite, hpasses⟩ := (hcomposites hpeek).sound hresolve
        -- The bytes that were read start with the descriptor that was seen.
        obtain ⟨d', hd'⟩ := hheaded hcomposite
        have hpeek' := peekDescriptor_eq_ok hc hpasses.1 hd'
        rw [hpeek] at hpeek'
        cases hpeek'
        exact ⟨n, bs, ⟨d, hd', hcomposite⟩, hpasses⟩
  complete := by
    rintro bounds n bs value hbounds ⟨d, hd, hcomposite⟩ hoffers
    have hpeek := peekDescriptor_eq_ok hc hoffers hd
    obtain ⟨c', hok, hpasses⟩ := (hcomposites hpeek).complete hbounds hcomposite hoffers
    exact ⟨c', bind_eq_ok_iff.mpr ⟨some d, c, hpeek, hok⟩, hpasses⟩

end

/-! ## The recursion of slots -/

section

variable {registry : Registry} {c : Cursor}

/-- A slot asks its resolver at the cursor only. -/
theorem slot_congr {resolver resolver' : Resolver}
    (h : ∀ d, peekDescriptor c = .ok (some d) c → resolver d c = resolver' d c) :
    Decode.slot resolver c = Decode.slot resolver' c := by
  simp only [Decode.slot, Bind.bind, EStateM.bind, asks]
  by_cases hat : c.atNull = true
  · rw [if_pos hat, if_pos hat]
  · rw [if_neg hat, if_neg hat]
    cases hpeek : peekDescriptor c with
    | error e c₁ => simp only [EStateM.bind, hpeek]
    | ok found c₁ =>
        obtain rfl := peekDescriptor_stays hpeek
        simp only [EStateM.bind, hpeek]
        cases found with
        | none => rfl
        | some d => exact h d hpeek

/-- A slot in front of a descriptor is no null, and is left to the resolver. -/
theorem slot_of_peekDescriptor {d : Descriptor} (hpeek : peekDescriptor c = .ok (some d) c) :
    Decode.slot resolver c = resolver d c := by
  have hnull : c.atNull = false := by
    rw [atNull, marker_of_peekDescriptor hpeek]
    rfl
  simp only [Decode.slot, Bind.bind, EStateM.bind, asks, hnull, Bool.false_eq_true, if_false, hpeek]

/-- Slots are read by their grammar, by induction on the levels.  The slots in a composite
stand inside of it, where less room and less potential is left, so the induction reaches
them, and so does the recursion of dispatch. -/
theorem readsAt_slot (hregistry : registry.Declared) (levels : Nat) (hc : c.Coherent)
    (hlevels : c.allowance.maxDepth < levels) :
    ReadsAt c registry.decodeSlot (Grammar.slot registry levels c.atRootSlot) := by
  induction levels generalizing c with
  | zero => exact absurd hlevels (Nat.not_lt_zero _)
  | succ levels ih =>
      have hguarded : ReadsInside c (Decode.slot fun inner c' =>
          if c'.potential < c.potential then Decode.dispatch registry inner c'
          else .error (.mismatch .selfReference c'.position) c')
          (Grammar.slot registry levels false) := by
        intro c₁ hc₁
        have hdeeper := hc₁.deeper
        have hinner := ih hc₁.coherent (by omega)
        -- Inside, the slot is not the root, and the guard of the recursion holds.
        rw [hc₁.atRootSlot_eq_false hc] at hinner
        refine hinner.congr (slot_congr fun d _ => ?_)
        rw [if_pos hc₁.less]
      refine readsAt_nullOr hc .null (Spans.headed fun d => Spans.dispatched registry _ _ d) ?_
      refine readsAt_headed hc headed_of_dispatched fun hpeek => ?_
      have hwith := readsAt_dispatchWith hc hregistry (Spans.slot registry levels false) hguarded
        hpeek
      exact hwith.congr (by rw [Decode.dispatch])

/-- Slots in a container are never the root. -/
theorem readsInside_slot (hregistry : registry.Declared) {levels : Nat} (hc : c.Coherent)
    (hlevels : c.allowance.maxDepth < levels) :
    ReadsInside c registry.decodeSlot (Grammar.slot registry levels false) := by
  intro c₁ hc₁
  have hinner := readsAt_slot hregistry levels hc₁.coherent (Nat.lt_trans hc₁.deeper hlevels)
  rwa [hc₁.atRootSlot_eq_false hc] at hinner

/-- Every target is read by its grammar. -/
theorem readsAt_target (hregistry : registry.Declared) {levels : Nat} (hc : c.Coherent)
    (hlevels : c.allowance.maxDepth < levels) (t : Target) :
    ReadsAt c (registry.decodeTarget t) (Grammar.target registry levels c.atRootSlot t) := by
  cases t with
  | slot => exact readsAt_slot hregistry levels hc hlevels
  | kind k =>
      exact readsAt_kind hc (Spans.slot registry levels false)
        (readsInside_slot hregistry hc hlevels) k

theorem readsInside_target (hregistry : registry.Declared) {levels : Nat} (hc : c.Coherent)
    (hlevels : c.allowance.maxDepth < levels) (t : Target) :
    ReadsInside c (registry.decodeTarget t) (Grammar.target registry levels false t) := by
  intro c₁ hc₁
  have hinner := readsAt_target hregistry hc₁.coherent (Nat.lt_trans hc₁.deeper hlevels) t
  rwa [hc₁.atRootSlot_eq_false hc] at hinner

end

end AmqpEnvelope
