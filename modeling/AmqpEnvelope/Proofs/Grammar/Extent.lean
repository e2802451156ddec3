import AmqpEnvelope.Proofs.Grammar.Primitive

/-!
# Extents

Where a value ends can be told without knowing what it means.  The format code gives the
size of everything but described values, which extend over two values, a descriptor and
a body, and which may only nest as deep as there is room.  Skipping and capturing accept
one extent (`readsAt_skip`, `readsAt_capture`).

* `Extent.unique`: two extents at the start of the same bytes are the same, so no extent
  is a proper beginning of another.
* `Spans`: a grammar whose byte strings are one element and one extent each.  Whatever
  reads such a grammar ends where skipping does.
-/

namespace AmqpEnvelope

open Cursor

/-- The bytes of one value, in which described values nest at most `room` deep. -/
inductive Extent : (room : Nat) → Bytes → Prop
  /-- The format code gives the size. -/
  | sized {room : Nat} {format : FormatCode} {bytes content : Bytes}
      (hcategory : format.category ≠ .described) (hpayload : Payload format.category bytes content) :
      Extent room (format.toByte :: bytes)
  /-- A described value extends over its descriptor and its body. -/
  | described {room : Nat} {descriptor body : Bytes} (hdescriptor : Extent room descriptor)
      (hbody : Extent room body) :
      Extent (room + 1) (FormatCode.described.toByte :: (descriptor ++ body))

/-- Only the marker of a described value is of its category. -/
theorem FormatCode.category_eq_described_iff {format : FormatCode} :
    format.category = .described ↔ format = .described := by
  cases format <;> decide

/-- No primitive value is described. -/
theorem FormatCode.category_ne_described {format : FormatCode} {p : Primitive}
    (h : format.primitive? = some p) : format.category ≠ .described := by
  intro hcategory
  rw [category_eq_described_iff.mp hcategory] at h
  cases h

theorem FormatCode.toByte_inj {f g : FormatCode} (h : f.toByte = g.toByte) : f = g := by
  have hfound := congrArg FormatCode.ofByte? h
  rw [ofByte?_toByte, ofByte?_toByte] at hfound
  exact Option.some.inj hfound

/-- Payloads of one category at the start of the same bytes are the same. -/
theorem Payload.unique {category : WidthCategory} {a b x y content content' : Bytes}
    (ha : Payload category a content) (hb : Payload category b content')
    (h : a ++ x = b ++ y) : a = b := by
  have hprefixed : ∀ width : Nat,
      (∃ head, a = head ++ content ∧ head.length = width ∧
        BigEndian.toNat head = content.length) →
      (∃ head, b = head ++ content' ∧ head.length = width ∧
        BigEndian.toNat head = content'.length) → a = b := by
    rintro width ⟨head, rfl, hwidth, hlength⟩ ⟨head', rfl, hwidth', hlength'⟩
    rw [List.append_assoc, List.append_assoc] at h
    obtain ⟨rfl, hrest⟩ := List.append_inj h (hwidth.trans hwidth'.symm)
    rw [(List.append_inj hrest (hlength.symm.trans hlength')).1]
  cases category with
  | described => rw [ha.1, hb.1]
  | fixed size =>
      obtain ⟨rfl, hlength⟩ := ha
      obtain ⟨rfl, hlength'⟩ := hb
      exact (List.append_inj h (hlength.trans hlength'.symm)).1
  | _ width => exact hprefixed width ha hb

/-- There is one content in a payload. -/
theorem Payload.content_unique {category : WidthCategory} {bytes content content' : Bytes}
    (h : Payload category bytes content) (h' : Payload category bytes content') :
    content = content' := by
  have hprefixed : ∀ width : Nat,
      (∃ head, bytes = head ++ content ∧ head.length = width ∧
        BigEndian.toNat head = content.length) →
      (∃ head, bytes = head ++ content' ∧ head.length = width ∧
        BigEndian.toNat head = content'.length) → content = content' := by
    rintro width ⟨head, rfl, hwidth, -⟩ ⟨head', hbytes, hwidth', -⟩
    exact (List.append_inj hbytes (hwidth.trans hwidth'.symm)).2
  cases category with
  | described => exact h.2.trans h'.2.symm
  | fixed size => exact h.1.symm.trans h'.1
  | _ width => exact hprefixed width h h'

namespace Extent

variable {room room' : Nat} {a b x y : Bytes}

/-- What fits into some room fits into more. -/
theorem mono (h : Extent room a) (hle : room ≤ room') : Extent room' a := by
  induction h generalizing room' with
  | sized hcategory hpayload => exact .sized hcategory hpayload
  | described _ _ ihdescriptor ihbody =>
      obtain ⟨room', rfl⟩ : ∃ more, room' = more + 1 := ⟨room' - 1, by omega⟩
      have hle : _ ≤ room' := Nat.le_of_succ_le_succ hle
      exact .described (ihdescriptor hle) (ihbody hle)

/-- Every value starts with a format code. -/
theorem exists_code (h : Extent room a) : ∃ format rest, a = FormatCode.toByte format :: rest := by
  cases h with
  | sized => exact ⟨_, _, rfl⟩
  | described => exact ⟨_, _, rfl⟩

theorem ne_nil (h : Extent room a) : a ≠ [] := by
  obtain ⟨format, rest, rfl⟩ := h.exists_code
  exact List.cons_ne_nil _ _

/-- Behind the marker of a described value stand a descriptor and a body. -/
theorem described_iff : Extent room (FormatCode.described.toByte :: a) ↔
    ∃ inner descriptor body, room = inner + 1 ∧ a = descriptor ++ body ∧
      Extent inner descriptor ∧ Extent inner body := by
  constructor
  · intro h
    generalize hwhole : FormatCode.described.toByte :: a = whole at h
    cases h with
    | sized hcategory =>
        obtain ⟨hformat, -⟩ := List.cons.inj hwhole
        obtain rfl := FormatCode.toByte_inj hformat
        exact absurd rfl hcategory
    | described hdescriptor hbody =>
        obtain ⟨-, rfl⟩ := List.cons.inj hwhole
        exact ⟨_, _, _, rfl, rfl, hdescriptor, hbody⟩
  · rintro ⟨inner, descriptor, body, rfl, rfl, hdescriptor, hbody⟩
    exact .described hdescriptor hbody

/-- A format code that gives the size is followed by the payload that it calls for. -/
theorem sized_iff {format : FormatCode} (hcategory : format.category ≠ .described) :
    Extent room (format.toByte :: a) ↔ ∃ content, Payload format.category a content := by
  constructor
  · intro h
    generalize hwhole : format.toByte :: a = whole at h
    cases h with
    | sized _ hpayload =>
        obtain ⟨hformat, rfl⟩ := List.cons.inj hwhole
        obtain rfl := FormatCode.toByte_inj hformat
        exact ⟨_, hpayload⟩
    | described =>
        obtain ⟨hformat, -⟩ := List.cons.inj hwhole
        exact absurd (FormatCode.category_eq_described_iff.mpr (FormatCode.toByte_inj hformat))
          hcategory
  · rintro ⟨content, hpayload⟩
    exact .sized hcategory hpayload

/-- Two extents at the start of the same bytes are the same. -/
theorem unique (ha : Extent room a) (hb : Extent room' b) (h : a ++ x = b ++ y) : a = b := by
  -- The first bytes agree, so the same format code decides how far both extend.
  induction ha generalizing room' b x y with
  | sized hcategory hpayload =>
      cases b with
      | nil => exact absurd rfl hb.ne_nil
      | cons byte rest =>
          obtain ⟨rfl, hrest⟩ := List.cons.inj h
          obtain ⟨content', hpayload'⟩ := (sized_iff hcategory).mp hb
          rw [hpayload.unique hpayload' hrest]
  | described _ _ ihdescriptor ihbody =>
      cases b with
      | nil => exact absurd rfl hb.ne_nil
      | cons byte rest =>
          simp only [List.cons_append, List.append_assoc, List.cons.injEq] at h
          obtain ⟨rfl, hrest⟩ := h
          obtain ⟨inner, descriptor', body', rfl, rfl, hdescriptor', hbody'⟩ :=
            described_iff.mp hb
          rw [List.append_assoc] at hrest
          obtain rfl := ihdescriptor hdescriptor' hrest
          rw [ihbody hbody' (List.append_cancel_left hrest)]

end Extent

/-! ## Grammars of single values -/

/-- Every byte string of the grammar is one element and one extent. -/
def Spans {α : Type} (g : Grammar α) : Prop :=
  ∀ ⦃bounds : Limits⦄ ⦃n : Nat⦄ ⦃bs : Bytes⦄ ⦃value : α⦄, g bounds n bs value →
    n = 1 ∧ Extent bounds.maxDepth bs

namespace Spans

variable {α β : Type}

theorem fail : Spans (Grammar.fail : Grammar α) := fun _ _ _ _ h => h.elim

theorem map (f : α → β) {g : Grammar α} (hg : Spans g) : Spans (f <$> g) := by
  intro bounds n bs value h
  obtain ⟨a, ha, -⟩ := Grammar.map_iff.mp h
  exact hg ha

theorem scalar (p : Primitive) : Spans (Grammar.scalar p) := by
  intro bounds n bs value h
  obtain ⟨rfl, format, back, content, offset, rfl, hprimitive, hpayload, -⟩ :=
    Grammar.scalar_iff.mp h
  exact ⟨rfl, .sized (FormatCode.category_ne_described hprimitive) hpayload⟩

end Spans

/-- A descriptor extends as one value, which takes no room. -/
theorem Extent.of_descriptor {bounds : Limits} {n : Nat} {bs : Bytes} {raw : RawDescriptor}
    (h : Grammar.descriptor bounds n bs raw) (room : Nat) : n = 0 ∧ Extent room bs := by
  obtain ⟨rfl, format, back, content, offset, rfl, hpayload, hraw⟩ :=
    Grammar.descriptor_iff.mp h
  refine ⟨rfl, .sized ?_ hpayload⟩
  rcases hraw with ⟨text, hprimitive, -⟩ | ⟨value, hprimitive, -⟩
  · exact FormatCode.category_ne_described hprimitive
  · exact FormatCode.category_ne_described hprimitive

/-! ## Skipping and capturing -/

namespace Grammar

/-- One value, whatever it means. -/
def extent : Grammar Unit := fun bounds n bs _ => n = 1 ∧ Extent bounds.maxDepth bs

/-- The bytes of one value. -/
def captured : Grammar Bytes := fun bounds n bs value =>
  n = 1 ∧ Extent bounds.maxDepth bs ∧ value = bs

/-- A value without the element that it makes up. -/
private def bare (room : Nat) : Grammar Unit := fun _ n bs _ => n = 0 ∧ Extent room bs

/-- What stands behind a format code for the value to be whole. -/
private def rest (room : Nat) (format : FormatCode) : Grammar Unit := fun _ n bs _ =>
  n = 0 ∧ Extent room (format.toByte :: bs)

private theorem code_rest_iff {room : Nat} {bounds : Limits} {n : Nat} {bs : Bytes} {u : Unit} :
    (do let format ← code; rest room format) bounds n bs u ↔ bare room bounds n bs u := by
  rw [bind_iff]
  constructor
  · rintro ⟨_, _, _, back, format, rfl, rfl, ⟨rfl, rfl⟩, rfl, hextent⟩
    exact ⟨rfl, hextent⟩
  · rintro ⟨rfl, hextent⟩
    obtain ⟨format, back, rfl⟩ := hextent.exists_code
    exact ⟨0, 0, _, back, format, rfl, rfl, ⟨rfl, rfl⟩, rfl, hextent⟩

private theorem rest_described_iff {room : Nat} {bounds : Limits} {n : Nat} {bs : Bytes}
    {u : Unit} :
    rest room .described bounds n bs u ↔ n = 0 ∧ ∃ inner descriptor body, room = inner + 1 ∧
      bs = descriptor ++ body ∧ Extent inner descriptor ∧ Extent inner body :=
  and_congr_right fun _ => Extent.described_iff

private theorem bare_bare_iff {room : Nat} {bounds : Limits} {n : Nat} {bs : Bytes} {u : Unit} :
    (do bare room; bare room) bounds n bs u ↔ rest (room + 1) .described bounds n bs u := by
  rw [rest_described_iff, bind_iff]
  constructor
  · rintro ⟨_, _, descriptor, body, _, rfl, rfl, ⟨rfl, hdescriptor⟩, rfl, hbody⟩
    exact ⟨rfl, room, descriptor, body, rfl, rfl, hdescriptor, hbody⟩
  · rintro ⟨rfl, inner, descriptor, body, hroom, rfl, hdescriptor, hbody⟩
    obtain rfl := Nat.succ.inj hroom
    exact ⟨0, 0, descriptor, body, (), rfl, rfl, ⟨rfl, hdescriptor⟩, rfl, hbody⟩

end Grammar

section

variable {c : Cursor}

private theorem readsAt_sized (hc : c.Coherent) {room : Nat} {format : FormatCode}
    (hcategory : format.category ≠ .described) (what : String) :
    ReadsAt c (do let _ ← Cursor.payload format.category what) (Grammar.rest room format) := by
  have hpayload := readsAt_payload hc format.category what
  refine ⟨fun h => ?_, ?_⟩
  · obtain ⟨content, hok, -⟩ := map_eq_ok_iff.mp h
    obtain ⟨n, bs, hg, hpasses⟩ := hpayload.sound hok
    obtain ⟨rfl, hcontent⟩ := Grammar.payload_iff.mp hg
    exact ⟨0, bs, ⟨rfl, .sized hcategory hcontent⟩, hpasses⟩
  · rintro bounds n bs - hbounds ⟨rfl, hextent⟩ hoffers
    obtain ⟨content, hcontent⟩ := (Extent.sized_iff hcategory).mp hextent
    obtain ⟨c', hok, hpasses⟩ :=
      hpayload.complete hbounds (Grammar.payload_iff.mpr ⟨rfl, hcontent⟩) hoffers
    exact ⟨c', map_eq_ok_iff.mpr ⟨content, hok, rfl⟩, hpasses⟩

/-- Skipping behind a claim accepts an extent, by induction on the room: the two parts of
a described value have one level less. -/
private theorem readsAt_skipBody (hc : c.Coherent) (room depth : Nat) :
    ReadsAt c (skipBody room depth) (Grammar.bare room) := by
  induction room generalizing c depth with
  | zero =>
      unfold skipBody
      refine ((readsAt_formatHere hc "value").bind_view
        fun ⟨format, offset⟩ _ _ c₁ hpasses _ => ?_).of_iff Grammar.code_rest_iff
      dsimp only
      split
      next hdescribed =>
        -- Without room there is no described value, and skipping refuses it as well.
        obtain rfl := FormatCode.category_eq_described_iff.mp hdescribed
        refine .asks ⟨fun h => absurd h throw_ne_ok, ?_⟩
        intro bounds n bs value _ hrest _
        obtain ⟨_, inner, _, _, hroom, _⟩ := Grammar.rest_described_iff.mp hrest
        cases hroom
      next hsized => exact readsAt_sized (hpasses.coherent hc) hsized _
  | succ room ih =>
      unfold skipBody
      refine ((readsAt_formatHere hc "value").bind_view
        fun ⟨format, offset⟩ _ _ c₁ hpasses _ => ?_).of_iff Grammar.code_rest_iff
      have hc₁ := hpasses.coherent hc
      dsimp only
      split
      next hdescribed =>
        obtain rfl := FormatCode.category_eq_described_iff.mp hdescribed
        refine ((ih hc₁ (depth + 1)).bind fun _ _ _ c₂ hpasses' => ?_).of_iff
          Grammar.bare_bare_iff
        exact ih (hpasses'.coherent hc₁) (depth + 1)
      next hsized => exact readsAt_sized hc₁ hsized _

/-- Skipping accepts exactly one extent, of the room that is left. -/
theorem readsAt_skip (hc : c.Coherent) : ReadsAt c skip Grammar.extent := by
  have hbody : ∀ {n bs c₁}, c.Passes n bs c₁ →
      ReadsAt c₁ (skipBody (c₁.limits.maxDepth - c₁.depth) c₁.depth)
        (fun bounds m as _ => m = 0 ∧ Extent bounds.maxDepth as) := by
    intro n bs c₁ hpasses
    have hskip := readsAt_skipBody (hpasses.coherent hc) (c₁.limits.maxDepth - c₁.depth) c₁.depth
    refine ⟨hskip.sound, ?_⟩
    rintro bounds m as value hbounds ⟨rfl, hextent⟩ hoffers
    exact hskip.complete hbounds ⟨rfl, hextent.mono hbounds.1⟩ hoffers
  refine ((readsAt_claim hc "value").bind fun _ _ _ _ hpasses => .get (hbody hpasses)).of_iff ?_
  intro bounds n bs value
  constructor
  · rintro ⟨_, _, _, _, _, rfl, rfl, ⟨rfl, rfl⟩, rfl, hextent⟩
    exact ⟨rfl, hextent⟩
  · rintro ⟨rfl, hextent⟩
    exact ⟨1, 0, [], bs, (), rfl, rfl, ⟨rfl, rfl⟩, rfl, hextent⟩

/-- Capturing accepts what skipping does, and answers with the bytes. -/
theorem readsAt_capture (hc : c.Coherent) : ReadsAt c capture Grammar.captured := by
  have hskip := readsAt_skip hc
  constructor
  · intro value c' h
    unfold capture at h
    cases hok : skip c with
    | error e after => simp [hok] at h
    | ok _ after =>
        rw [hok] at h
        cases h
        obtain ⟨n, bs, ⟨rfl, hextent⟩, hpasses⟩ := hskip.sound hok
        refine ⟨1, bs, ⟨rfl, hextent, ?_⟩, hpasses⟩
        rw [hpasses.2, past_position, Nat.add_sub_cancel_left]
        exact hpasses.1.take_eq
  · rintro bounds n bs value hbounds ⟨rfl, hextent, rfl⟩ hoffers
    have hwhole : Grammar.extent bounds 1 value () := ⟨rfl, hextent⟩
    obtain ⟨c', hok, hpasses⟩ := hskip.complete hbounds hwhole hoffers
    refine ⟨c', ?_, hpasses⟩
    have htaken : c.unread.take (c'.position - c.position) = value := by
      rw [hpasses.2, past_position, Nat.add_sub_cancel_left]
      exact hoffers.take_eq
    simp only [capture, hok, htaken]

end

/-- Whatever is read by a grammar of single values, skipping reads the same bytes. -/
theorem Spans.skip_of_ok {α : Type} {c c' : Cursor} {reader : Decoding α} {g : Grammar α}
    {value : α} (hg : Spans g) (hreader : ReadsAt c reader g) (hc : c.Coherent)
    (h : reader c = .ok value c') :
    ∃ bs after, bs ≠ [] ∧ c.Passes 1 bs c' ∧ skip c = .ok () after ∧ c.Passes 1 bs after := by
  obtain ⟨n, bs, hvalue, hpasses⟩ := hreader.sound h
  obtain ⟨rfl, hextent⟩ := hg hvalue
  obtain ⟨after, hskip, hpasses'⟩ :=
    (readsAt_skip hc).complete (Limits.le_refl _) ⟨rfl, hextent⟩ hpasses.1
  exact ⟨bs, after, hextent.ne_nil, hpasses, hskip, hpasses'⟩

end AmqpEnvelope
