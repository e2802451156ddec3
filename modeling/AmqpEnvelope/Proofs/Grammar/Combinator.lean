import AmqpEnvelope.Proofs.Grammar.Head

/-!
# Grammars of nested values

Described values, lists and maps of what a grammar says of their elements, values that
may be null, and repetition; each with the reader that follows it.  A reader of elements
has to follow its grammar inside the container only (`ReadsInside`).

Lists and maps span whatever their elements are, since their heads give their size.
Described values span if their bodies do.
-/

namespace AmqpEnvelope

open Cursor

/-! ## Reading inside a container -/

/-- A reader follows a grammar at every cursor in a container. -/
def ReadsInside {α : Type} (outer : Cursor) (reader : Decoding α) (g : Grammar α) : Prop :=
  ∀ ⦃c : Cursor⦄, Inside outer c → ReadsAt c reader g

namespace ReadsInside

variable {α β : Type} {outer : Cursor}

/-- What is followed everywhere is followed inside a container. -/
theorem of_coherent {reader : Decoding α} {g : Grammar α}
    (h : ∀ {c : Cursor}, c.Coherent → ReadsAt c reader g) : ReadsInside outer reader g :=
  fun _ hc => h hc.coherent

/-- What is followed inside a container is followed in every container in it. -/
theorem descend {reader : Decoding α} {g : Grammar α} (h : ReadsInside outer reader g)
    {c : Cursor} (hc : Inside outer c) : ReadsInside c reader g :=
  fun _ hc' => h (hc.trans hc')

theorem pure (a : α) : ReadsInside outer (pure a) (pure a) :=
  of_coherent fun hc => ReadsAt.pure hc a

theorem throw (e : DecodeError) : ReadsInside outer (throw e : Decoding α) Grammar.fail :=
  fun _ _ => ReadsAt.throw e

theorem bind {reader : Decoding α} {g : Grammar α} {next : α → Decoding β}
    {follow : α → Grammar β} (hreader : ReadsInside outer reader g)
    (hnext : ∀ a, ReadsInside outer (next a) (follow a)) :
    ReadsInside outer (reader >>= next) (g >>= follow) :=
  fun _ hc => (hreader hc).bind fun a _ _ _ hpasses => hnext a (hc.passes hpasses)

theorem map {reader : Decoding α} {g : Grammar α} (f : α → β)
    (hreader : ReadsInside outer reader g) : ReadsInside outer (f <$> reader) (f <$> g) :=
  fun _ hc => (hreader hc).map f

theorem asks {f : Cursor → α} {next : α → Decoding β} {g : Grammar β}
    (hnext : ∀ a, ReadsInside outer (next a) g) :
    ReadsInside outer (Cursor.asks f >>= next) g :=
  fun _ hc => ReadsAt.asks (hnext _ hc)

theorem begun {k : Kind} {fields : Decoding α} {g : Grammar α}
    (hfields : ReadsInside outer fields g) : ReadsInside outer (Decode.begun k fields) g :=
  fun _ hc => ReadsAt.begun (hfields (hc.begun k.typeName))

theorem read (p : Primitive) : ReadsInside outer (Cursor.read p) (Grammar.scalar p) :=
  of_coherent fun hc => readsAt_read hc p

end ReadsInside

/-! ## Grammars of containers -/

namespace Grammar

variable {α : Type}

/-- A described value: a descriptor, and a body that may depend on it. -/
def described (body : RawDescriptor → Grammar α) : Grammar α := container describedHead body

/-- A list: so many elements. -/
def listed (elements : Nat → Grammar α) : Grammar α := container listHead elements

/-- A map: so many entries. -/
def mapped (entries : Nat → Grammar α) : Grammar α := container mapHead entries

/-- A composite: a described list, of fields that may depend on the descriptor. -/
def composite (fields : Descriptor → Grammar α) : Grammar α :=
  described fun raw => listed fun _ => fields raw.descriptor

/-- One after the other, so many times. -/
def times (g : Grammar α) : Nat → Grammar (List α)
  | 0 => pure []
  | n + 1 => do
      let first ← g
      let others ← times g n
      return first :: others

/-- A list of what a grammar says. -/
def listOf (g : Grammar α) : Grammar (List α) := listed (times g)

/-- Null stands for the given value; the first byte decides whether it is null. -/
def nullOr (ofNull : α) (g : Grammar α) : Grammar α := fun bounds n bs value =>
  if bs.head? = some FormatCode.null.toByte then scalar .null bounds n bs () ∧ value = ofNull
  else g bounds n bs value

/-- Null, or what a grammar says. -/
def nullable (g : Grammar α) : Grammar (Option α) := nullOr none (some <$> g)

end Grammar

/-! ## Extents of containers -/

private theorem CompoundHeader.payload {width : Nat} {bounds : Limits} {bs body : Bytes}
    {heading : Heading} (h : CompoundHeader width bounds bs heading)
    (hsize : ∀ size, heading.size = some size → body.length = size) :
    ∃ content, Payload (.compound width) (bs ++ body) content := by
  obtain ⟨size, sizeBytes, countBytes, rfl, hwidth, hwidth', htotal, rfl, -, -⟩ := h
  refine ⟨countBytes ++ body, sizeBytes, List.append_assoc _ _ _, hwidth, ?_⟩
  rw [htotal, List.length_append, hwidth', hsize size rfl]

theorem ListHeader.extent {format : FormatCode} {bounds : Limits} {bs body : Bytes}
    {heading : Heading} (h : ListHeader format bounds bs heading)
    (hsize : ∀ size, heading.size = some size → body.length = size) (room : Nat) :
    Extent room (format.toByte :: (bs ++ body)) := by
  unfold ListHeader at h
  split at h
  · obtain ⟨rfl, rfl⟩ := h
    exact .sized (by decide) ⟨rfl, hsize 0 rfl⟩
  · obtain ⟨content, hpayload⟩ := CompoundHeader.payload h hsize
    exact .sized (by decide) hpayload
  · obtain ⟨content, hpayload⟩ := CompoundHeader.payload h hsize
    exact .sized (by decide) hpayload
  · exact h.elim

theorem MapHeader.extent {format : FormatCode} {bounds : Limits} {bs body : Bytes}
    {heading : Heading} (h : MapHeader format bounds bs heading)
    (hsize : ∀ size, heading.size = some size → body.length = size) (room : Nat) :
    Extent room (format.toByte :: (bs ++ body)) := by
  unfold MapHeader at h
  split at h
  · obtain ⟨content, hpayload⟩ := CompoundHeader.payload h hsize
    exact .sized (by decide) hpayload
  · obtain ⟨content, hpayload⟩ := CompoundHeader.payload h hsize
    exact .sized (by decide) hpayload
  · exact h.elim

namespace Spans

variable {α : Type}

theorem described {body : RawDescriptor → Grammar α} (hbody : ∀ raw, Spans (body raw)) :
    Spans (Grammar.described body) := by
  rintro bounds n _ value
    ⟨rfl, hroom, _, heading, raw, bs, rfl, ⟨rfl, head, rfl, hraw⟩, -, hvalue⟩
  obtain ⟨-, hextent⟩ := hbody raw hvalue
  obtain ⟨-, hdescriptor⟩ := Extent.of_descriptor hraw bounds.inner.maxDepth
  obtain ⟨room, hmax⟩ : ∃ room, bounds.maxDepth = room + 1 := ⟨bounds.maxDepth - 1, by omega⟩
  have hinner : bounds.inner.maxDepth = room := by simp [Limits.inner, hmax]
  rw [hinner] at hextent hdescriptor
  rw [hmax]
  exact ⟨rfl, .described hdescriptor hextent⟩

theorem listed (elements : Nat → Grammar α) : Spans (Grammar.listed elements) := by
  rintro bounds n _ value
    ⟨rfl, -, _, heading, count, body, rfl, ⟨-, format, bs, rfl, hheader⟩, hsize, -⟩
  exact ⟨rfl, hheader.extent hsize bounds.maxDepth⟩

theorem mapped (entries : Nat → Grammar α) : Spans (Grammar.mapped entries) := by
  rintro bounds n _ value
    ⟨rfl, -, _, heading, count, body, rfl, ⟨-, format, bs, rfl, hheader⟩, hsize, -⟩
  exact ⟨rfl, hheader.extent hsize bounds.maxDepth⟩

theorem composite (fields : Descriptor → Grammar α) : Spans (Grammar.composite fields) :=
  described fun _ => listed _

theorem nullOr (ofNull : α) {g : Grammar α} (hg : Spans g) : Spans (Grammar.nullOr ofNull g) := by
  intro bounds n bs value h
  unfold Grammar.nullOr at h
  split at h
  · exact Spans.scalar .null h.1
  · exact hg h

theorem nullable {g : Grammar α} (hg : Spans g) : Spans (Grammar.nullable g) :=
  nullOr none (Spans.map some hg)

end Spans

/-! ## Readers of containers -/

section

variable {α : Type} {c : Cursor}

theorem readsAt_described (hc : c.Coherent) {body : Opening → Decoding α}
    {g : RawDescriptor → Grammar α}
    (hbody : ∀ opening, ReadsInside c (body opening) (g opening.raw)) :
    ReadsAt c (do
      let opening ← beginDescribed
      let value ← body opening
      finishDescribed
      return value) (Grammar.described g) := by
  refine readsAt_container (enters_beginDescribed hc) (fun _ _ => walks_beginDescribed.coherent hc)
    fun raw _ hc₁ => hbody ⟨raw, c.position⟩ hc₁

theorem readsAt_listed (hc : c.Coherent) {elements : Nat → Decoding α} {g : Nat → Grammar α}
    (helements : ∀ count, ReadsInside c (elements count) (g count)) :
    ReadsAt c (do
      let count ← enterList
      let value ← elements count
      exitList
      return value) (Grammar.listed g) := by
  refine readsAt_container (enters_enterList hc) (fun _ _ => walks_enterList.coherent hc)
    fun count _ hc₁ => helements count hc₁

theorem readsAt_mapped (hc : c.Coherent) {entries : Nat → Decoding α} {g : Nat → Grammar α}
    (hentries : ∀ count, ReadsInside c (entries count) (g count)) :
    ReadsAt c (do
      let count ← enterMap
      let value ← entries count
      exitMap
      return value) (Grammar.mapped g) := by
  refine readsAt_container (enters_enterMap hc) (fun _ _ => walks_enterMap.coherent hc)
    fun count _ hc₁ => hentries count hc₁

/-- A composite is entered and left like a described value with a list in it. -/
theorem readsAt_composite (hc : c.Coherent) {fields : Descriptor → Decoding α}
    {g : Descriptor → Grammar α} (hfields : ∀ d, ReadsInside c (fields d) (g d)) :
    ReadsAt c (do
      let d ← enterComposite
      let value ← fields d
      exitComposite
      return value) (Grammar.composite g) := by
  have hnested : (do
      let d ← enterComposite
      let value ← fields d
      exitComposite
      return value) =
    (do
      let opening ← beginDescribed
      let value ← (do
        let _ ← enterList
        let value ← fields opening.descriptor
        exitList
        return value)
      finishDescribed
      return value) := by
    simp only [enterComposite, exitComposite, bind_assoc, pure_bind]
  rw [hnested]
  refine readsAt_described hc fun opening _ hc₁ => ?_
  exact readsAt_listed hc₁.coherent fun _ => (hfields _).descend hc₁

/-- Repeating a reader repeats its grammar; what was collected before stays in front. -/
theorem readsInside_collect {outer : Cursor} {reader : Decoding α} {g : Grammar α}
    (hreader : ReadsInside outer reader g) (n : Nat) (done : List α) :
    ReadsInside outer (Cursor.collect reader n done)
      ((fun items => done.reverse ++ items) <$> Grammar.times g n) := by
  induction n generalizing done with
  | zero =>
      have heq : (fun items => done.reverse ++ items) <$> Grammar.times g 0 = pure done.reverse := by
        simp [Grammar.times]
      rw [heq]
      exact .pure _
  | succ n ih =>
      have heq : (fun items => done.reverse ++ items) <$> Grammar.times g (n + 1) =
          (do
            let first ← g
            (fun items => (first :: done).reverse ++ items) <$> Grammar.times g n) := by
        simp [Grammar.times]
      rw [heq]
      exact hreader.bind fun first => ih (first :: done)

/-- A view of what is collected may be taken item by item. -/
theorem map_collect {β : Type} (view : α → β) (reader : Decoding α) (n : Nat) (done : List α) :
    List.map view <$> Cursor.collect reader n done =
      Cursor.collect (view <$> reader) n (done.map view) := by
  induction n generalizing done with
  | zero => simp [Cursor.collect]
  | succ n ih => simp [Cursor.collect, ih]

theorem readsAt_listOf (hc : c.Coherent) {reader : Decoding α} {g : Grammar α}
    (hreader : ReadsInside c reader g) : ReadsAt c (listOf reader) (Grammar.listOf g) := by
  refine readsAt_listed hc fun count => ?_
  have hcollect := readsInside_collect hreader count []
  simpa using hcollect

theorem atNull_iff {n : Nat} {bs : Bytes} (h : c.Offers n bs) (hne : bs ≠ []) :
    c.atNull = true ↔ bs.head? = some FormatCode.null.toByte := by
  rw [atNull, h.peekByte?_eq hne, beq_iff_eq]

/-- The first byte of a value decides between null and what else it may be, so that has
to have a first byte. -/
theorem readsAt_nullOr (hc : c.Coherent) (ofNull : α) {reader : Decoding α} {g : Grammar α}
    (hg : Spans g) (hreader : ReadsAt c reader g) :
    ReadsAt c (do
      if ← asks Cursor.atNull then
        read .null
        return ofNull
      else reader) (Grammar.nullOr ofNull g) := by
  have hnull := readsAt_read hc .null
  refine .asks ⟨?_, ?_⟩
  · intro value c' h
    by_cases hat : c.atNull = true
    · rw [if_pos hat] at h
      obtain ⟨_, hok, rfl⟩ := map_eq_ok_iff.mp h
      obtain ⟨n, bs, hscalar, hpasses⟩ := hnull.sound hok
      have hne := (Spans.scalar .null hscalar).2.ne_nil
      refine ⟨n, bs, ?_, hpasses⟩
      rw [Grammar.nullOr, if_pos ((atNull_iff hpasses.1 hne).mp hat)]
      exact ⟨hscalar, rfl⟩
    · rw [if_neg hat] at h
      obtain ⟨n, bs, hvalue, hpasses⟩ := hreader.sound h
      have hne := (hg hvalue).2.ne_nil
      refine ⟨n, bs, ?_, hpasses⟩
      rw [Grammar.nullOr, if_neg fun hhead => hat ((atNull_iff hpasses.1 hne).mpr hhead)]
      exact hvalue
  · intro bounds n bs value hbounds hvalue hoffers
    have hne := (Spans.nullOr ofNull hg hvalue).2.ne_nil
    unfold Grammar.nullOr at hvalue
    split at hvalue
    next hhead =>
      obtain ⟨hscalar, rfl⟩ := hvalue
      obtain ⟨c', hok, hpasses⟩ := hnull.complete hbounds hscalar hoffers
      rw [if_pos ((atNull_iff hoffers hne).mpr hhead)]
      exact ⟨c', map_eq_ok_iff.mpr ⟨(), hok, rfl⟩, hpasses⟩
    next hhead =>
      rw [if_neg fun hat => hhead ((atNull_iff hoffers hne).mp hat)]
      exact hreader.complete hbounds hvalue hoffers

theorem readsAt_nullable (hc : c.Coherent) {reader : Decoding α} {g : Grammar α} (hg : Spans g)
    (hreader : ReadsAt c reader g) : ReadsAt c (nullable reader) (Grammar.nullable g) :=
  readsAt_nullOr hc none (Spans.map some hg) (hreader.map some)

end

end AmqpEnvelope
