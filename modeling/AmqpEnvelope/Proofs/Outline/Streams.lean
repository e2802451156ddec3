import AmqpEnvelope.Proofs.Framing.Start
import AmqpEnvelope.Proofs.Framing.Streams
import AmqpEnvelope.Proofs.Outline.WellFormed

/-!
# Well-formed streams

Outlines exist exactly for the streams that are a sequence of well-formed values behind an
optional preamble (`Outline.exists_ofBytes_iff`).  The section number of the preamble may
be any: an outline shows what is there, also where decoding would refuse it.
-/

namespace AmqpEnvelope

open Cursor

/-! ## Values up to the end -/

section

variable {c c' : Cursor} {limits : Limits} {bs : Bytes}

theorem node_iff_of_no_frames (hframes : c.frames = []) {n : Nat} :
    Grammar.node c.allowance.maxDepth c.allowance n bs () ↔ n = 1 ∧ WellFormed c.limits 0 bs := by
  have hroom : c.limits.maxDepth - 0 = c.allowance.maxDepth := by
    rw [allowance, depth, hframes]
    rfl
  exact node_iff hroom

/-- What is read where nothing is open is a well-formed value. -/
theorem wellFormed_of_value (hc : c.Coherent) (hframes : c.frames = []) {node : Node}
    (h : Outline.value c = .ok node c') :
    ∃ bs, WellFormed c.limits 0 bs ∧ c.Passes 1 bs c' := by
  obtain ⟨n, bs, hnode, hpasses⟩ := (readsAt_value hc).sound (map_eq_ok_iff.mpr ⟨node, h, rfl⟩)
  obtain ⟨rfl, hvalue⟩ := (node_iff_of_no_frames hframes).mp hnode
  exact ⟨bs, hvalue, hpasses⟩

/-- Where nothing is open, a well-formed value is read. -/
theorem value_of_wellFormed (hc : c.Coherent) (hframes : c.frames = [])
    (hvalue : WellFormed c.limits 0 bs) (hfront : bs <+: c.unread) :
    ∃ node c', Outline.value c = .ok node c' ∧ c.Passes 1 bs c' := by
  obtain ⟨c', hread, hpasses⟩ := (readsAt_value hc).complete (Limits.le_refl _)
    ((node_iff_of_no_frames hframes).mpr ⟨rfl, hvalue⟩) (Offers.of_no_frames hc hframes hfront 1)
  obtain ⟨node, hok, -⟩ := map_eq_ok_iff.mp hread
  exact ⟨node, c', hok, hpasses⟩

/-- A well-formed value takes at least a byte. -/
theorem length_lt_of_passes {depth : Nat} (hvalue : WellFormed limits depth bs)
    (hpasses : c.Passes 1 bs c') : c'.unread.length < c.unread.length := by
  obtain ⟨format, rest, rfl⟩ := hvalue.exists_code
  rw [hpasses.unread_eq, List.length_append, List.length_cons]
  omega

theorem valuesUpTo_succ_of_atEnd (hend : c.atEnd = true) (steps : Nat) (done : List Node) :
    Outline.valuesUpTo (steps + 1) done c = .ok done.reverse c :=
  bind_eq_ok_iff.mpr ⟨true, c, asks_eq_ok_iff.mpr ⟨hend, rfl⟩, rfl⟩

theorem valuesUpTo_succ_iff (hend : ¬ c.atEnd = true) {steps : Nat} {done nodes : List Node} :
    Outline.valuesUpTo (steps + 1) done c = .ok nodes c' ↔
      ∃ node c₁, Outline.value c = .ok node c₁ ∧
        Outline.valuesUpTo steps (node :: done) c₁ = .ok nodes c' := by
  rw [← bind_eq_ok_iff]
  change (if c.atEnd = true then _ else _ : Decoding (List Node)) c = _ ↔ _
  rw [if_neg hend]

/-- Values are read up to the end exactly when the input is a sequence of well-formed
values, by induction on the steps.  Every value takes a byte, so there are steps enough. -/
theorem valuesUpTo_iff (hc : c.Coherent) (hframes : c.frames = []) (steps : Nat)
    (hsteps : c.unread.length ≤ steps) (done : List Node) :
    (∃ nodes c', Outline.valuesUpTo steps done c = .ok nodes c') ↔
      ∃ values : List Bytes, c.unread = values.flatten ∧
        ∀ value ∈ values, WellFormed c.limits 0 value := by
  induction steps generalizing c done with
  | zero =>
      have hunread : c.unread = [] := List.length_eq_zero_iff.mp (Nat.le_zero.mp hsteps)
      exact ⟨fun _ => ⟨[], hunread, nofun⟩, fun _ => ⟨_, c, rfl⟩⟩
  | succ steps ih =>
      by_cases hend : c.atEnd = true
      · have hunread := (atEnd_iff hc).mp hend
        exact ⟨fun _ => ⟨[], hunread, nofun⟩,
          fun _ => ⟨done.reverse, c, valuesUpTo_succ_of_atEnd hend steps done⟩⟩
      -- Behind a value the same is said of what is left, with one step less.
      have hleft : ∀ {bs : Bytes} {c₁ : Cursor} (node : Node), WellFormed c.limits 0 bs →
          c.Passes 1 bs c₁ →
          ((∃ nodes c', Outline.valuesUpTo steps (node :: done) c₁ = .ok nodes c') ↔
            ∃ values : List Bytes, c₁.unread = values.flatten ∧
              ∀ value ∈ values, WellFormed c.limits 0 value) := by
        intro bs c₁ node hvalue hpasses
        have hlength := length_lt_of_passes hvalue hpasses
        have hlimits : c₁.limits = c.limits := by rw [hpasses.2, past_limits]
        rw [← hlimits]
        exact ih (hpasses.coherent hc) (hpasses.no_frames hframes) (by omega) (node :: done)
      constructor
      · rintro ⟨nodes, c', hread⟩
        obtain ⟨node, c₁, hvalue, hrest⟩ := (valuesUpTo_succ_iff hend).mp hread
        obtain ⟨bs, hwell, hpasses⟩ := wellFormed_of_value hc hframes hvalue
        obtain ⟨values, hvalues, hall⟩ := (hleft node hwell hpasses).mp ⟨nodes, c', hrest⟩
        refine ⟨bs :: values, ?_, List.forall_mem_cons.mpr ⟨hwell, hall⟩⟩
        rw [hpasses.unread_eq, hvalues, List.flatten_cons]
      · rintro ⟨values, hvalues, hall⟩
        cases values with
        | nil => exact absurd ((atEnd_iff hc).mpr hvalues) hend
        | cons bs values =>
            rw [List.forall_mem_cons] at hall
            rw [List.flatten_cons] at hvalues
            obtain ⟨node, c₁, hvalue, hpasses⟩ :=
              value_of_wellFormed hc hframes hall.1 (hvalues ▸ List.prefix_append bs _)
            have hrest : c₁.unread = values.flatten :=
              List.append_cancel_left (hpasses.unread_eq.symm.trans hvalues)
            obtain ⟨nodes, c', hok⟩ := (hleft node hall.1 hpasses).mpr ⟨values, hrest, hall.2⟩
            exact ⟨nodes, c', (valuesUpTo_succ_iff hend).mpr ⟨node, c₁, hvalue, hok⟩⟩

end

/-! ## Preambles -/

namespace Outline

/-- Well-formed values do not start as the magic does. -/
theorem not_magic_of_wellFormed {limits : Limits} {values : List Bytes}
    (h : ∀ value ∈ values, WellFormed limits 0 value) : ¬ streamMagic <+: values.flatten := by
  cases values with
  | nil => exact fun hfront => by cases List.prefix_nil.mp hfront
  | cons value rest =>
      obtain ⟨format, back, rfl⟩ := (h _ List.mem_cons_self).exists_code
      exact not_prefix_of_code rfl

/-- What is read behind the preamble. -/
def afterPreamble (sectionId : Option UInt8) : Decoding Outline := do
  let c ← get
  return ⟨sectionId, ← valuesUpTo (c.size - c.position) []⟩

theorem exists_afterPreamble_iff {c : Cursor} (hc : c.Coherent) (hframes : c.frames = [])
    (sectionId : Option UInt8) :
    (∃ outline c', afterPreamble sectionId c = .ok outline c') ↔ ∃ values : List Bytes,
      c.unread = values.flatten ∧ ∀ value ∈ values, WellFormed c.limits 0 value := by
  have hsteps : c.unread.length ≤ c.size - c.position := by
    have hlength := hc.position_add_length
    omega
  rw [← valuesUpTo_iff hc hframes _ hsteps []]
  constructor
  · rintro ⟨outline, c', h⟩
    obtain ⟨_, _, hget, hvalues⟩ := bind_eq_ok_iff.mp h
    obtain ⟨rfl, rfl⟩ := get_eq_ok_iff.mp hget
    obtain ⟨nodes, hok, -⟩ := map_eq_ok_iff.mp hvalues
    exact ⟨nodes, c', hok⟩
  · rintro ⟨nodes, c', hok⟩
    refine ⟨⟨sectionId, nodes⟩, c', bind_eq_ok_iff.mpr ⟨c, c, get_eq_ok_iff.mpr ⟨rfl, rfl⟩, ?_⟩⟩
    exact map_eq_ok_iff.mpr ⟨nodes, hok, rfl⟩

/-- Behind the magic there is a section number, and values follow it. -/
theorem exists_section_iff {c : Cursor} (hc : c.Coherent) (hframes : c.frames = []) :
    (∃ outline c', (do
      let number ← rawByte "section id"
      afterPreamble (some number)) c = .ok outline c') ↔
      ∃ (number : UInt8) (values : List Bytes), c.unread = number :: values.flatten ∧
        ∀ value ∈ values, WellFormed c.limits 0 value := by
  have hbehind : ∀ {number : UInt8} {more : Bytes}, c.unread = number :: more →
      (c.advance 1).Coherent ∧ (c.advance 1).unread = more := fun h =>
    advance_coherent hc hframes (h.trans (List.singleton_append).symm)
  constructor
  · rintro ⟨outline, c', h⟩
    obtain ⟨number, c₁, hread, hrest⟩ := bind_eq_ok_iff.mp h
    obtain ⟨hhead, rfl⟩ := (rawByte_eq_ok_iff hc hframes).mp hread
    obtain ⟨more, hunread⟩ := List.head?_eq_some_iff.mp hhead
    obtain ⟨hc₁, hmore⟩ := hbehind hunread
    obtain ⟨values, hvalues, hall⟩ :=
      (exists_afterPreamble_iff hc₁ hframes (some number)).mp ⟨outline, c', hrest⟩
    rw [hmore] at hvalues
    exact ⟨number, values, by rw [hunread, hvalues], hall⟩
  · rintro ⟨number, values, hunread, hall⟩
    obtain ⟨hc₁, hmore⟩ := hbehind hunread
    obtain ⟨outline, c', hrest⟩ :=
      (exists_afterPreamble_iff hc₁ hframes (some number)).mpr ⟨values, hmore, hall⟩
    refine ⟨outline, c', bind_eq_ok_iff.mpr ⟨number, c.advance 1, ?_, hrest⟩⟩
    exact (rawByte_eq_ok_iff hc hframes).mpr ⟨by rw [hunread]; rfl, rfl⟩

theorem stream_of_magic {c : Cursor} (hframes : c.frames = []) (h : streamMagic <+: c.unread) :
    stream c = (do let number ← rawByte "section id"; afterPreamble (some number))
      (c.advance streamMagic.length) := by
  refine (bind_of_ok (strip_magic hframes h) _).trans ?_
  rw [if_pos rfl]
  exact congrFun (bind_map_left some (rawByte "section id") afterPreamble) _

theorem stream_of_not_magic {c : Cursor} (h : ¬ streamMagic <+: c.unread) :
    stream c = afterPreamble none c := by
  refine (bind_of_ok (strip_of_mismatch h) _).trans ?_
  rw [if_neg Bool.false_ne_true]
  exact congrFun (pure_bind none afterPreamble) c

/-- **An outline exists exactly for the well-formed streams**: an optional magic with a
section number, whatever that is, and a sequence of well-formed values. -/
theorem exists_ofBytes_iff (bytes : Bytes) :
    (∃ outline, ofBytes bytes = .ok outline) ↔ ∃ (preamble : Bytes) (values : List Bytes),
      bytes = preamble ++ values.flatten ∧
        (preamble = [] ∨ ∃ number, preamble = streamMagic ++ [number]) ∧
          ∀ value ∈ values, WellFormed Limits.standard 0 value := by
  have hc := start_coherent bytes Limits.standard
  -- Only whether there is an outline is asked, so the cursor behind it does not matter.
  have hstream : (∃ outline, ofBytes bytes = .ok outline) ↔
      ∃ outline c', stream (Cursor.start bytes Limits.standard) = .ok outline c' := by
    unfold ofBytes
    cases stream (Cursor.start bytes Limits.standard) with
    | ok outline c' => exact ⟨fun _ => ⟨outline, c', rfl⟩, fun _ => ⟨outline, rfl⟩⟩
    | error e c' => exact ⟨nofun, nofun⟩
  rw [hstream]
  by_cases hmagic : streamMagic <+: bytes
  · obtain ⟨rest, rfl⟩ := hmagic
    have hstart : (Cursor.start (streamMagic ++ rest) Limits.standard).unread =
      streamMagic ++ rest := rfl
    obtain ⟨hc₁, hunread⟩ := advance_coherent hc rfl hstart
    rw [stream_of_magic rfl (List.prefix_append _ _), exists_section_iff hc₁ rfl, hunread]
    constructor
    · rintro ⟨number, values, rfl, hall⟩
      exact ⟨streamMagic ++ [number], values, by rw [List.append_assoc]; rfl, .inr ⟨number, rfl⟩,
        hall⟩
    · rintro ⟨_, values, hbytes, rfl | ⟨number, rfl⟩, hall⟩
      · have hmagic : streamMagic <+: values.flatten := ⟨rest, hbytes⟩
        exact absurd hmagic (not_magic_of_wellFormed hall)
      · rw [List.append_assoc] at hbytes
        exact ⟨number, values, List.append_cancel_left hbytes, hall⟩
  · rw [stream_of_not_magic hmagic, exists_afterPreamble_iff hc rfl]
    constructor
    · rintro ⟨values, hvalues, hall⟩
      exact ⟨[], values, hvalues, .inl rfl, hall⟩
    · rintro ⟨_, values, hbytes, rfl | ⟨number, rfl⟩, hall⟩
      · exact ⟨values, hbytes, hall⟩
      · rw [List.append_assoc] at hbytes
        exact absurd (hbytes ▸ List.prefix_append _ _) hmagic

end Outline

end AmqpEnvelope
