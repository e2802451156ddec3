import AmqpEnvelope.Proofs.Grammar.Container

/-!
# Heads of described values, lists and maps

What stands in front of the elements of each kind of container, and that the entering
readers accept exactly that (`enters_beginDescribed`, `enters_enterList`,
`enters_enterMap`).  A described value has one element and leaves its size open.  A list
or map gives the size, which counts the count itself, and the number of elements, which
cannot exceed the bytes that are left for them.
-/

namespace AmqpEnvelope

open Cursor

/-! ## Headers behind a format code -/

/-- A size and a count of a given width, which cover each other and keep the bound on
collections. -/
def CompoundHeader (width : Nat) (bounds : Limits) (bytes : Bytes) (heading : Heading) : Prop :=
  ∃ size sizeBytes countBytes, bytes = sizeBytes ++ countBytes ∧ sizeBytes.length = width ∧
    countBytes.length = width ∧ BigEndian.toNat sizeBytes = width + size ∧
      heading = ⟨BigEndian.toNat countBytes, some size⟩ ∧ heading.count ≤ size ∧
        heading.count ≤ bounds.maxCollectionLength

/-- The header of a list behind its format code; the empty list has a code of its own. -/
def ListHeader : FormatCode → Limits → Bytes → Heading → Prop
  | .list0, _, bytes, heading => bytes = [] ∧ heading = ⟨0, some 0⟩
  | .list8, bounds, bytes, heading => CompoundHeader 1 bounds bytes heading
  | .list32, bounds, bytes, heading => CompoundHeader 4 bounds bytes heading
  | _, _, _, _ => False

/-- The header of a map behind its format code. -/
def MapHeader : FormatCode → Limits → Bytes → Heading → Prop
  | .map8, bounds, bytes, heading => CompoundHeader 1 bounds bytes heading
  | .map32, bounds, bytes, heading => CompoundHeader 4 bounds bytes heading
  | _, _, _, _ => False

/-- A reader of headers accepts exactly the headers whose elements fit before the
bound. -/
structure Declares (c : Cursor) (reader : Decoding (Nat × Nat))
    (header : Limits → Bytes → Heading → Prop) : Prop where
  sound : ∀ {declaredEnd count : Nat} {c' : Cursor}, reader c = .ok (declaredEnd, count) c' →
    ∃ bs size, header c.allowance bs ⟨count, some size⟩ ∧ c.Passes 0 bs c' ∧
      declaredEnd = c'.position + size ∧ bs.length + size ≤ c.available
  complete : ∀ {bounds : Limits} {bs : Bytes} {heading : Heading}, bounds ≤ c.allowance →
    header bounds bs heading → c.Offers 0 bs →
      (∀ size, heading.size = some size → bs.length + size ≤ c.available) →
        ∃ size c', heading.size = some size ∧ c.Passes 0 bs c' ∧
          reader c = .ok (c'.position + size, heading.count) c'

section

variable {c : Cursor}

theorem declares_compoundHeader (hc : c.Coherent) (width : Nat) (what : String) :
    Declares c (compoundHeader width what) (CompoundHeader width) where
  sound := by
    intro declaredEnd count c' h
    obtain ⟨total, hwidth, htotal, hcover, hrest, rfl, helements⟩ :=
      compoundHeader_eq_ok_iff.mp h
    obtain ⟨hwidth', hcount, hlimit, hspare, rfl⟩ := elementCount_eq_ok_iff.mp helements
    -- The size and the count are two numbers, one behind the other.
    obtain ⟨_, sizeBytes, hsizeBytes, hpasses⟩ :=
      (readsAt_number hc width what).sound (number_eq_ok_iff.mpr ⟨hwidth, htotal, rfl⟩)
    obtain ⟨rfl, hlength, rfl⟩ := Grammar.number_iff.mp hsizeBytes
    obtain ⟨_, countBytes, hcountBytes, hpasses'⟩ :=
      (readsAt_number (hpasses.coherent hc) width what).sound
        (number_eq_ok_iff.mpr ⟨hwidth', hcount, rfl⟩)
    obtain ⟨rfl, hlength', rfl⟩ := Grammar.number_iff.mp hcountBytes
    have hcovered := hpasses.1.fits
    simp only [available, advance_bound, advance_position] at hrest hwidth' hspare hcovered
    refine ⟨sizeBytes ++ countBytes, BigEndian.toNat sizeBytes - width, ?_,
      hpasses.trans hpasses', ?_, ?_⟩
    · refine ⟨_, sizeBytes, countBytes, rfl, hlength, hlength', by omega, rfl, ?_, hlimit⟩
      simp only
      omega
    · simp only [advance_position]
      omega
    · simp only [List.length_append, available]
      omega
  complete := by
    rintro bounds _ _ hbounds
      ⟨size, sizeBytes, countBytes, rfl, hlength, hlength', htotal, rfl, hspare, hlimit⟩
      hoffers hfits
    have hfits := hfits size rfl
    rw [List.length_append] at hfits
    obtain ⟨c₁, hnumber, hpasses⟩ := (readsAt_number hc width what).complete hbounds
      (Grammar.number_iff.mpr ⟨rfl, hlength, rfl⟩) hoffers.of_append
    have hbounds' : bounds ≤ c₁.allowance := by rwa [hpasses.allowance_eq]
    obtain ⟨c₂, hnumber', hpasses'⟩ := (readsAt_number (hpasses.coherent hc) width what).complete
      hbounds' (Grammar.number_iff.mpr ⟨rfl, hlength', rfl⟩) (hpasses.offers_rest hoffers)
    obtain ⟨hwidth, htotal', rfl⟩ := number_eq_ok_iff.mp hnumber
    obtain ⟨hwidth', hcount, rfl⟩ := number_eq_ok_iff.mp hnumber'
    refine ⟨size, _, rfl, hpasses.trans hpasses', ?_⟩
    have hend : ((c.advance width).advance width).position + size =
        c.position + width + BigEndian.toNat sizeBytes := by
      simp only [advance_position]
      omega
    simp only [available, advance_bound, advance_position] at hfits hwidth hwidth'
    refine compoundHeader_eq_ok_iff.mpr
      ⟨BigEndian.toNat sizeBytes, hwidth, htotal', by omega, ?_, hend, ?_⟩
    · simp only [available, advance_bound, advance_position]
      omega
    · rw [hend]
      refine elementCount_eq_ok_iff.mpr ⟨hwidth', hcount, ?_, ?_, rfl⟩
      · exact Nat.le_trans hlimit hbounds.2
      · simp only at hspare
        simp only [advance_position]
        omega

theorem declares_listHeader (hc : c.Coherent) (format : FormatCode) (offset : Nat) :
    Declares c (listHeader format offset) (ListHeader format) := by
  unfold listHeader
  split
  · refine ⟨fun h => ?_, ?_⟩
    · obtain ⟨_, _, hasks, hpure⟩ := bind_eq_ok_iff.mp h
      obtain ⟨rfl, rfl⟩ := asks_eq_ok_iff.mp hasks
      obtain ⟨heq, rfl⟩ := pure_eq_ok_iff.mp hpure
      cases heq
      obtain ⟨_, _, ⟨rfl, rfl, -⟩, hpasses⟩ := (ReadsAt.pure hc ()).sound rfl
      exact ⟨[], 0, ⟨rfl, rfl⟩, hpasses, rfl, Nat.zero_le _⟩
    · rintro bounds _ _ - ⟨rfl, rfl⟩ hoffers -
      exact ⟨0, c, rfl, ⟨hoffers, (past_nil c).symm⟩, rfl⟩
  · exact declares_compoundHeader hc 1 "list"
  · exact declares_compoundHeader hc 4 "list"
  next h0 h8 h32 =>
    have hnone : ∀ bounds bs heading, ¬ ListHeader format bounds bs heading := by
      intro bounds bs heading hheader
      unfold ListHeader at hheader
      split at hheader
      · exact h0 rfl
      · exact h8 rfl
      · exact h32 rfl
      · exact hheader
    exact ⟨fun h => absurd h throw_ne_ok, fun _ hheader => absurd hheader (hnone _ _ _)⟩

theorem declares_mapHeader (hc : c.Coherent) (format : FormatCode) (offset : Nat) :
    Declares c (mapHeader format offset) (MapHeader format) := by
  unfold mapHeader
  split
  · exact declares_compoundHeader hc 1 "map"
  · exact declares_compoundHeader hc 4 "map"
  next h8 h32 =>
    have hnone : ∀ bounds bs heading, ¬ MapHeader format bounds bs heading := by
      intro bounds bs heading hheader
      unfold MapHeader at hheader
      split at hheader
      · exact h8 rfl
      · exact h32 rfl
      · exact hheader
    exact ⟨fun h => absurd h throw_ne_ok, fun _ hheader => absurd hheader (hnone _ _ _)⟩

/-! ## Heads -/

/-- The head of a described value: the marker and the descriptor.  Its one element, the
body, ends where it ends. -/
def describedHead : HeadGrammar RawDescriptor := fun bounds head heading raw =>
  heading = ⟨1, none⟩ ∧ ∃ bs, head = FormatCode.described.toByte :: bs ∧
    Grammar.descriptor bounds 0 bs raw

/-- The head of a list, with the number of its elements. -/
def listHead : HeadGrammar Nat := fun bounds head heading count =>
  heading.count = count ∧ ∃ format bs, head = FormatCode.toByte format :: bs ∧
    ListHeader format bounds bs heading

/-- The head of a map, with the number of its entries. -/
def mapHead : HeadGrammar Nat := fun bounds head heading entries =>
  heading.count = 2 * entries ∧ ∃ format bs, head = FormatCode.toByte format :: bs ∧
    MapHeader format bounds bs heading

theorem enters_beginDescribed (hc : c.Coherent) :
    Enters c beginDescribed .described (fun raw => ⟨raw, c.position⟩) describedHead where
  sound := by
    intro opening c' h
    obtain ⟨⟨format, offset⟩, c₁, hbegin, h⟩ := bind_eq_ok_iff.mp h
    obtain rfl := offset_of_beginValue hbegin
    obtain ⟨_, _, hlead, hpasses⟩ :=
      (readsAt_beginValue hc _).sound (map_eq_ok_iff.mpr ⟨_, hbegin, rfl⟩)
    obtain ⟨rfl, rfl⟩ := Grammar.lead_iff.mp hlead
    by_cases hformat : format = .described
    · simp only [hformat, if_true] at h hpasses
      obtain ⟨raw, c₂, hraw, h⟩ := bind_eq_ok_iff.mp h
      obtain ⟨_, c₃, hpush, h⟩ := bind_eq_ok_iff.mp h
      obtain ⟨rfl, rfl⟩ := pure_eq_ok_iff.mp h
      obtain ⟨_, bs, hg, hpasses'⟩ :=
        (readsAt_rawDescriptor (hpasses.coherent hc)).sound hraw
      obtain ⟨rfl, -⟩ := Extent.of_descriptor hg 0
      rw [hpasses.allowance_eq] at hg
      have hopens : Opens c .described (FormatCode.described.toByte :: bs) ⟨1, none⟩ c₃ :=
        .of_push (hpasses.trans hpasses') nofun hpush
      exact ⟨_, _, raw, rfl, ⟨rfl, bs, rfl, hg⟩, List.cons_ne_nil _ _, hopens⟩
    · simp only [hformat, if_false] at h
      exact absurd h throw_ne_ok
  complete := by
    rintro bounds _ _ raw hbounds ⟨rfl, bs, rfl, hraw⟩ hoffers hfits hroom
    rw [← List.singleton_append] at hoffers
    obtain ⟨c₁, hviewed, hpasses⟩ := (readsAt_beginValue hc "described type").complete hbounds
      (Grammar.lead_iff.mpr ⟨rfl, rfl⟩) hoffers.of_append
    obtain ⟨⟨format, offset⟩, hbegin, hformat⟩ := map_eq_ok_iff.mp hviewed
    obtain rfl : format = .described := hformat
    obtain rfl := offset_of_beginValue hbegin
    have hback : c₁.Offers 0 bs := hpasses.offers_rest hoffers
    have hbounds' : bounds ≤ c₁.allowance := by rwa [hpasses.allowance_eq]
    obtain ⟨c₂, hread, hpasses'⟩ :=
      (readsAt_rawDescriptor (hpasses.coherent hc)).complete hbounds' hraw hback
    obtain ⟨c₃, hpush, hopens⟩ :=
      Opens.exists_push (hpasses.trans hpasses') hfits hroom .described
    refine ⟨List.cons_ne_nil _ _, c₃, ?_, hopens⟩
    refine bind_eq_ok_iff.mpr ⟨_, c₁, hbegin, ?_⟩
    exact bind_eq_ok_iff.mpr ⟨raw, c₂, hread, bind_eq_ok_iff.mpr ⟨(), c₃, hpush, rfl⟩⟩

section

variable {c₁ c₂ c₃ : Cursor} {header : FormatCode → Limits → Bytes → Heading → Prop}
  {readHeader : FormatCode → Nat → Decoding (Nat × Nat)} {what : String} {format : FormatCode}
  {kind : FrameKind}

/-- A list or map is opened by a format code, a header and a push. -/
private theorem opens_of_header (hc : c.Coherent)
    (hdeclares : ∀ {c offset}, c.Coherent → Declares c (readHeader format offset) (header format))
    {offset declaredEnd count : Nat} (hbegin : beginValue what c = .ok (format, offset) c₁)
    (hheader : readHeader format offset c₁ = .ok (declaredEnd, count) c₂)
    (hpush : push kind offset (some declaredEnd) count c₂ = .ok () c₃) :
    ∃ bs heading, header format c.allowance bs heading ∧ heading.count = count ∧
      Opens c kind (format.toByte :: bs) heading c₃ := by
  obtain rfl := offset_of_beginValue hbegin
  obtain ⟨_, _, hlead, hpasses⟩ :=
    (readsAt_beginValue hc _).sound (map_eq_ok_iff.mpr ⟨_, hbegin, rfl⟩)
  obtain ⟨rfl, rfl⟩ := Grammar.lead_iff.mp hlead
  obtain ⟨bs, size, hdeclared, hpasses', rfl, hfits⟩ :=
    (hdeclares (hpasses.coherent hc)).sound hheader
  rw [hpasses.allowance_eq] at hdeclared
  refine ⟨bs, ⟨count, some size⟩, hdeclared, rfl, .of_push (hpasses.trans hpasses') ?_ hpush⟩
  rintro _ ⟨⟩
  have hlead := hpasses.1.fits
  rw [hpasses.2, past_available] at hfits
  simp only [List.length_cons, List.length_nil] at hlead hfits ⊢
  omega

/-- Where the head of a list or map is offered, its parts are read one after the other. -/
private theorem exists_header (hc : c.Coherent)
    (hdeclares : ∀ {c offset}, c.Coherent → Declares c (readHeader format offset) (header format))
    {bounds : Limits} {bs : Bytes} {heading : Heading} (hbounds : bounds ≤ c.allowance)
    (hheader : header format bounds bs heading) (hoffers : c.Offers 1 (format.toByte :: bs))
    (hfits : ∀ size, heading.size = some size →
      (format.toByte :: bs).length + size ≤ c.available)
    (hroom : 0 < c.allowance.maxDepth) (what : String) (kind : FrameKind) :
    ∃ offset c₁ declaredEnd c₂ c₃, beginValue what c = .ok (format, offset) c₁ ∧
      readHeader format offset c₁ = .ok (declaredEnd, heading.count) c₂ ∧
        push kind offset (some declaredEnd) heading.count c₂ = .ok () c₃ ∧
          Opens c kind (format.toByte :: bs) heading c₃ := by
  rw [← List.singleton_append] at hoffers
  obtain ⟨c₁, hviewed, hpasses⟩ := (readsAt_beginValue hc what).complete hbounds
    (Grammar.lead_iff.mpr ⟨rfl, rfl⟩) hoffers.of_append
  obtain ⟨⟨found, offset⟩, hbegin, hformat⟩ := map_eq_ok_iff.mp hviewed
  obtain rfl : found = format := hformat
  obtain rfl := offset_of_beginValue hbegin
  have hback : c₁.Offers 0 bs := hpasses.offers_rest hoffers
  have hbounds' : bounds ≤ c₁.allowance := by rwa [hpasses.allowance_eq]
  obtain ⟨size, c₂, hsize, hpasses', hread⟩ :=
    (hdeclares (hpasses.coherent hc)).complete hbounds' hheader hback (by
      intro size hsize
      have := hfits size hsize
      rw [hpasses.2, past_available]
      simp only [List.length_cons, List.length_nil] at this ⊢
      omega)
  obtain ⟨c₃, hpush, hopens⟩ :=
    Opens.exists_push (hpasses.trans hpasses') hfits hroom kind
  rw [hsize] at hpush
  exact ⟨c.position, c₁, _, c₂, c₃, hbegin, hread, hpush, hopens⟩

end

theorem enters_enterList (hc : c.Coherent) : Enters c enterList .list id listHead where
  sound := by
    intro count c' h
    obtain ⟨⟨format, offset⟩, c₁, hbegin, h⟩ := bind_eq_ok_iff.mp h
    obtain ⟨⟨declaredEnd, count'⟩, c₂, hheader, h⟩ := bind_eq_ok_iff.mp h
    obtain ⟨_, c₃, hpush, h⟩ := bind_eq_ok_iff.mp h
    obtain ⟨rfl, rfl⟩ := pure_eq_ok_iff.mp h
    obtain ⟨bs, heading, hdeclared, hcount, hopens⟩ := opens_of_header hc
      (fun hc => declares_listHeader hc _ _) hbegin hheader hpush
    exact ⟨_, heading, count', rfl, ⟨hcount, format, bs, rfl, hdeclared⟩, List.cons_ne_nil _ _,
      hopens⟩
  complete := by
    rintro bounds _ heading count hbounds ⟨rfl, format, bs, rfl, hdeclared⟩ hoffers hfits hroom
    obtain ⟨offset, c₁, declaredEnd, c₂, c₃, hbegin, hheader, hpush, hopens⟩ :=
      exists_header hc (fun hc => declares_listHeader hc _ _) hbounds hdeclared hoffers hfits
        hroom "list" .list
    refine ⟨List.cons_ne_nil _ _, c₃, ?_, hopens⟩
    refine bind_eq_ok_iff.mpr ⟨_, c₁, hbegin, bind_eq_ok_iff.mpr ⟨_, c₂, hheader, ?_⟩⟩
    exact bind_eq_ok_iff.mpr ⟨(), c₃, hpush, rfl⟩

theorem enters_enterMap (hc : c.Coherent) : Enters c enterMap .map id mapHead where
  sound := by
    intro entries c' h
    obtain ⟨⟨format, offset⟩, c₁, hbegin, h⟩ := bind_eq_ok_iff.mp h
    obtain ⟨⟨declaredEnd, count⟩, c₂, hheader, h⟩ := bind_eq_ok_iff.mp h
    by_cases heven : count % 2 = 0
    · simp only [heven, if_true] at h
      obtain ⟨_, c₃, hpush, h⟩ := bind_eq_ok_iff.mp h
      obtain ⟨rfl, rfl⟩ := pure_eq_ok_iff.mp h
      obtain ⟨bs, heading, hdeclared, hcount, hopens⟩ := opens_of_header hc
        (fun hc => declares_mapHeader hc _ _) hbegin hheader hpush
      refine ⟨_, heading, count / 2, rfl, ⟨?_, format, bs, rfl, hdeclared⟩, List.cons_ne_nil _ _,
        hopens⟩
      omega
    · simp only [heven, if_false] at h
      exact absurd h throw_ne_ok
  complete := by
    rintro bounds _ heading entries hbounds ⟨hcount, format, bs, rfl, hdeclared⟩ hoffers hfits hroom
    obtain ⟨offset, c₁, declaredEnd, c₂, c₃, hbegin, hheader, hpush, hopens⟩ :=
      exists_header hc (fun hc => declares_mapHeader hc _ _) hbounds hdeclared hoffers hfits
        hroom "map" .map
    have heven : heading.count % 2 = 0 := by omega
    have hhalf : heading.count / 2 = entries := by omega
    refine ⟨List.cons_ne_nil _ _, c₃, ?_, hopens⟩
    refine bind_eq_ok_iff.mpr ⟨_, c₁, hbegin, bind_eq_ok_iff.mpr ⟨_, c₂, hheader, ?_⟩⟩
    simp only [heven, if_true, hhalf]
    exact bind_eq_ok_iff.mpr ⟨(), c₃, hpush, rfl⟩

end

end AmqpEnvelope
