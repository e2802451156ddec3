import AmqpEnvelope.Proofs.Decode.Walk
import AmqpEnvelope.Proofs.Framing.Continuation

/-!
# Streams

The accepted streams are prefix-free: no stream that is decoded goes on to another one
(`Registry.decodeRoot_prefix_free`).  What is appended to such a stream is reported as
trailing, to the byte, and nothing before it is decided differently.

The end of the input is consulted before anything has been read: without a preamble the
first bytes are compared with the magic, and the value is peeked at for an envelope.  The
first byte settles both, since every value starts with a format code and the magic does
not.
-/

namespace AmqpEnvelope

namespace Cursor

variable {α : Type} {c c' : Cursor}

/-! ## The parts of a stream -/

/-- The root value and, if an envelope was entered, the rest of that. -/
def atRoot (enveloped : Bool) (reader : Decoding α) : Decoding α := do
  markRoot
  let value ← reader
  if enveloped then exitEnvelope
  return value

/-- Enter an envelope if they are to be unwrapped and there is one. -/
def unwrap (framing : Framing) : Decoding Bool :=
  if framing.unwrapEnvelope then enterEnvelope else pure false

/-- What stands behind the preamble. -/
def framed (framing : Framing) (reader : Decoding α) : Decoding α := do
  let enveloped ← unwrap framing
  atRoot enveloped reader

/-- Require the input to end. -/
def finish (value : α) : Decoding α := do
  let c ← get
  if c.atEnd then return value
  else mismatch (.trailingBytes c.unread.length) c.position

private theorem atRoot_finish (enveloped : Bool) (reader : Decoding α) :
    atRoot enveloped reader >>= finish = (do
      markRoot
      let value ← reader
      if enveloped then exitEnvelope else pure ()
      finish value) := by
  cases enveloped with
  | false => simp [atRoot]
  | true => simp [atRoot]

/-- A stream is its preamble, what stands behind that, and the end. -/
theorem rootValue_eq (framing : Framing) (reader : Decoding α) :
    rootValue framing reader = (do
      let _ ← readPreamble framing
      finish (← framed framing reader)) := by
  unfold rootValue framed unwrap
  simp only [bind_assoc, atRoot_finish]
  cases framing.unwrapEnvelope with
  | false => rfl
  | true => rfl

theorem finish_eq (value : α) (c : Cursor) :
    finish value c =
      if c.atEnd then .ok value c
      else .error (.mismatch (.trailingBytes c.unread.length) c.position) c := by
  change (if c.atEnd then pure value else mismatch (.trailingBytes c.unread.length) c.position :
    Decoding α) c = _
  split
  · rfl
  · rfl

theorem finish_eq_ok_iff {value result : α} :
    finish value c = .ok result c' ↔ c.atEnd = true ∧ value = result ∧ c = c' := by
  rw [finish_eq]
  by_cases hend : c.atEnd = true
  · rw [if_pos hend, EStateM.Result.ok.injEq]
    exact ⟨fun h => ⟨hend, h⟩, fun h => h.2⟩
  · rw [if_neg hend]
    exact ⟨nofun, fun h => absurd h.1 hend⟩

/-- Where the input ended and now goes on, all that was added is trailing. -/
theorem finish_widen (hc : c.Coherent) (hend : c.atEnd = true) {more : Bytes}
    (hmore : more ≠ []) (names : List String) (value : α) :
    finish value (c.widen more names) =
      .error (.mismatch (.trailingBytes more.length) c.size) (c.widen more names) := by
  have hlength := hc.position_add_length
  have hreached : c.size ≤ c.position := of_decide_eq_true hend
  have hunread : c.unread = [] := List.length_eq_zero_iff.mp (by omega)
  have hposition : c.position = c.size := by
    rw [hunread] at hlength
    exact hlength
  have hpos := List.length_pos_iff.mpr hmore
  have hopen : ¬ (c.widen more names).atEnd = true := by
    intro h
    have hle : c.size + more.length ≤ c.position := of_decide_eq_true h
    omega
  rw [finish_eq, if_neg hopen, widen_unread, hunread, List.nil_append, widen_position, hposition]

theorem walks_unwrap (framing : Framing) : Walks (unwrap framing) := by
  unfold unwrap
  split
  · exact walks_enterEnvelope
  · exact .pure false

theorem walks_atRoot {reader : Decoding α} (hreader : Walks reader) (enveloped : Bool) :
    Walks (atRoot enveloped reader) := by
  refine walks_markRoot.bind fun _ => hreader.bind fun value => ?_
  split
  · exact walks_exitEnvelope.bind fun _ => .pure value
  · exact .pure value

theorem walks_framed {reader : Decoding α} (framing : Framing) (hreader : Walks reader) :
    Walks (framed framing reader) :=
  (walks_unwrap framing).bind fun enveloped => walks_atRoot hreader enveloped

/-! ## Preambles -/

/-- What starts with a format code does not start as the magic does. -/
theorem not_prefix_of_code {rest bytes : Bytes} {format : FormatCode}
    (hcode : bytes.head? = some format.toByte) : ¬ 0x63 :: rest <+: bytes := by
  rintro ⟨more, rfl⟩
  have hmagic : (0x63 : UInt8) ≠ format.toByte := by
    cases format <;> decide
  exact hmagic (Option.some.inj hcode)

theorem readPreamble_of_magic (framing : Framing) (hframes : c.frames = [])
    (hmagic : streamMagic <+: c.unread) :
    readPreamble framing c =
      (sectionNumber >>= fun _ => pure true) (c.advance streamMagic.length) := by
  have hstrip : strip streamMagic c = .ok true (c.advance streamMagic.length) := by
    rw [strip, hframes, List.isPrefixOf_iff_prefix.mpr hmagic]
    rfl
  change (strip streamMagic >>= _) c = _
  simp only [bind, EStateM.bind, hstrip]
  rfl

/-- Without the magic, the preamble is missing or there is none. -/
theorem readPreamble_of_not_magic (framing : Framing) (hmagic : ¬ streamMagic <+: c.unread) :
    readPreamble framing c =
      if magicStem <+: c.unread then
        .error (.invalidPreamble (.unsupportedHeader (c.unread.take streamMagic.length))
          c.position) c
      else if framing.requirePreamble then
        .error (.invalidPreamble .missingMagic c.position) c
      else .ok false c := by
  have hnot : streamMagic.isPrefixOf c.unread = false := by
    rw [Bool.eq_false_iff]
    exact fun h => hmagic (List.isPrefixOf_iff_prefix.mp h)
  have hstrip : strip streamMagic c = .ok false c := by
    rw [strip, hnot, Bool.and_false]
    rfl
  change (strip streamMagic >>= _) c = _
  simp only [bind, EStateM.bind, hstrip, Bool.false_eq_true, if_false]
  by_cases hstem : magicStem <+: c.unread
  · rw [if_pos hstem, if_pos (List.isPrefixOf_iff_prefix.mpr hstem)]
    rfl
  · rw [if_neg hstem, if_neg fun h => hstem (List.isPrefixOf_iff_prefix.mp h)]
    by_cases hrequire : framing.requirePreamble = true
    · rw [if_pos hrequire, if_pos hrequire]
      rfl
    · rw [if_neg hrequire, if_neg hrequire]
      rfl

end Cursor

open Cursor

namespace GoesOn

variable {α : Type} {c c' : Cursor}

theorem sectionNumber (hc : c.Coherent) : GoesOn c sectionNumber := by
  have hbyte : GoesOn c (rawByte "section id") :=
    of_readsAt ((readsAt_take hc 1 _).map _) fun more names =>
      (readsAt_take (hc.widen more names) 1 _).map _
  intro _ c' h more names
  unfold Cursor.sectionNumber at h ⊢
  cases hread : rawByte "section id" c with
  | error e c₁ =>
      rw [hread] at h
      cases h
  | ok id c₁ =>
      obtain ⟨names', hread'⟩ := hbyte hread more names
      rw [hread] at h
      rw [hread']
      by_cases hdata : id = dataSection
      · simp only [if_pos hdata] at h ⊢
        cases h
        exact ⟨names', rfl⟩
      · simp only [if_neg hdata] at h
        cases h

/-- Whether there is a preamble does not depend on what follows if a value stands where
there is none. -/
theorem readPreamble {framing : Framing} (hc : c.Coherent) (hframes : c.frames = [])
    (hvalue : readPreamble framing c = .ok false c →
      ∃ format : FormatCode, c.unread.head? = some format.toByte) :
    GoesOn c (readPreamble framing) := by
  intro found c' h more names
  by_cases hmagic : streamMagic <+: c.unread
  · have hlength := hmagic.length_le
    have havailable : streamMagic.length ≤ c.available := by
      have hsize := hc.position_add_length
      simp only [available, bound, hframes, innermostEnd?, Option.getD_none]
      omega
    have hmoved : (c.widen more names).advance streamMagic.length =
        (c.advance streamMagic.length).widen more names := by
      simp only [advance, widen, List.drop_append_of_le_length hlength]
    have hadvanced : (c.advance streamMagic.length).Coherent :=
      (Move.pass _ havailable).coherent hc
    have hmagic' : streamMagic <+: (c.widen more names).unread :=
      hmagic.trans (List.prefix_append _ _)
    rw [readPreamble_of_magic framing hframes hmagic] at h
    rw [readPreamble_of_magic (c := c.widen more names) framing hframes hmagic', hmoved]
    exact ((sectionNumber hadvanced).bind fun _ _ _ => .pure true) h more names
  · -- Nothing was read, so the first byte has to keep the magic away from what is added.
    rw [readPreamble_of_not_magic framing hmagic] at h
    by_cases hstem : magicStem <+: c.unread
    · rw [if_pos hstem] at h
      cases h
    · rw [if_neg hstem] at h
      by_cases hrequire : framing.requirePreamble = true
      · rw [if_pos hrequire] at h
        cases h
      · rw [if_neg hrequire] at h
        cases h
        obtain ⟨format, hcode⟩ := hvalue (by
          rw [readPreamble_of_not_magic framing hmagic, if_neg hstem, if_neg hrequire])
        have hcode' : (c.widen more names).unread.head? = some format.toByte := by
          rw [widen_unread, List.head?_append, hcode]
          rfl
        have hstem' : ¬ magicStem <+: (c.widen more names).unread := not_prefix_of_code hcode'
        refine ⟨names, ?_⟩
        rw [readPreamble_of_not_magic framing (not_prefix_of_code hcode'), if_neg hstem',
          if_neg hrequire]

end GoesOn

/-! ## Envelopes and root values -/

section

variable {c c' : Cursor} {framing : Framing}

/-- Either there is no envelope and the cursor stays, or a marker has been read and an
envelope is open. -/
theorem unwrap_eq_ok {enveloped : Bool} (hc : c.Coherent)
    (h : unwrap framing c = .ok enveloped c') :
    (enveloped = false ∧ c' = c) ∨
      (enveloped = true ∧ c.peekByte? = some FormatCode.described.toByte ∧ c'.frames ≠ []) := by
  unfold unwrap at h
  by_cases hunwrap : framing.unwrapEnvelope = true
  case neg =>
    rw [if_neg hunwrap] at h
    obtain ⟨rfl, rfl⟩ := pure_eq_ok_iff.mp h
    exact .inl ⟨rfl, rfl⟩
  rw [if_pos hunwrap] at h
  obtain ⟨found, c₁, hpeek, hrest⟩ := bind_eq_ok_iff.mp h
  obtain rfl := peekDescriptor_stays hpeek
  by_cases hfound : found = some envelopeDescriptor
  · rw [if_pos hfound] at hrest
    obtain ⟨d, c₂, henter, hopened⟩ := bind_eq_ok_iff.mp hrest
    obtain ⟨_, c₃, hget, hchecked⟩ := bind_eq_ok_iff.mp hopened
    obtain ⟨rfl, rfl⟩ := get_eq_ok_iff.mp hget
    obtain ⟨-, hpure⟩ := unless_eq_ok_iff.mp hchecked
    obtain ⟨rfl, rfl⟩ := pure_eq_ok_iff.mp hpure
    rw [hfound] at hpeek
    exact .inr ⟨rfl, marker_of_peekDescriptor hpeek, frames_ne_nil_of_enterComposite hc henter⟩
  · rw [if_neg hfound] at hrest
    obtain ⟨rfl, rfl⟩ := pure_eq_ok_iff.mp hrest
    exact .inl ⟨rfl, rfl⟩

variable {registry : Registry} {t : Target} {value : t.Carrier}

/-- A value that is decoded is one element and one extent. -/
theorem passes_of_decodeTarget (hregistry : registry.Declared) (hc : c.Coherent)
    (h : registry.decodeTarget t c = .ok value c') :
    ∃ bs, Extent c.allowance.maxDepth bs ∧ c.Passes 1 bs c' := by
  obtain ⟨n, bs, hvalue, hpasses⟩ :=
    (readsAt_target hregistry hc (Nat.lt_succ_self _) t).sound h
  obtain ⟨rfl, hextent⟩ := Spans.target registry _ _ t hvalue
  exact ⟨bs, hextent, hpasses⟩

/-- What is decoded starts with a format code. -/
theorem exists_code_of_decodeTarget (hregistry : registry.Declared) (hc : c.Coherent)
    (h : registry.decodeTarget t c = .ok value c') :
    ∃ format : FormatCode, c.peekByte? = some format.toByte := by
  obtain ⟨bs, hextent, hoffers, -⟩ := passes_of_decodeTarget hregistry hc h
  have hpeek := hoffers.peekByte?_eq hextent.ne_nil
  obtain ⟨format, rest, rfl⟩ := hextent.exists_code
  exact ⟨format, hpeek⟩

/-- Behind the preamble, too, there is a format code first. -/
theorem exists_code_of_framed (hregistry : registry.Declared) (hc : c.Coherent)
    (h : framed framing (registry.decodeTarget t) c = .ok value c') :
    ∃ format : FormatCode, c.peekByte? = some format.toByte := by
  obtain ⟨enveloped, c₁, hunwrap, hroot⟩ := bind_eq_ok_iff.mp h
  rcases unwrap_eq_ok hc hunwrap with ⟨-, rfl⟩ | ⟨-, hmarker, -⟩
  · obtain ⟨_, c₂, hmark, hvalue⟩ := bind_eq_ok_iff.mp hroot
    obtain ⟨_, c₃, hdecode, -⟩ := bind_eq_ok_iff.mp hvalue
    cases hmark
    -- The mark is no part of what the cursor offers.
    have hcode := exists_code_of_decodeTarget hregistry (Move.mark.coherent hc) hdecode
    exact hcode
  · exact ⟨.described, hmarker⟩

end

namespace GoesOn

variable {c : Cursor}

theorem exitEnvelope (hc : c.Coherent) (hframes : c.frames ≠ []) : GoesOn c exitEnvelope :=
  (skipRemaining hc hframes).bind fun _ _ _ => exitComposite

theorem unwrap {framing : Framing} (hc : c.Coherent) (havailable : 0 < c.available) :
    GoesOn c (unwrap framing) := by
  unfold Cursor.unwrap
  split
  · exact enterEnvelope hc havailable
  · exact .pure false

/-- In an envelope there is a frame, and the values that are left in it are counted
there. -/
theorem atRoot {registry : Registry} (hregistry : registry.Declared) (hc : c.Coherent)
    (t : Target) {enveloped : Bool} (hframes : enveloped = true → c.frames ≠ []) :
    GoesOn c (atRoot enveloped (registry.decodeTarget t)) := by
  refine markRoot.bind fun _ c₁ hmark => ?_
  cases hmark
  have hmarked := Move.mark.coherent hc
  refine (target hregistry hmarked t).bind fun value c₂ hdecode => ?_
  obtain ⟨bs, -, hpasses⟩ := passes_of_decodeTarget hregistry hmarked hdecode
  cases enveloped with
  | false => exact .pure value
  | true =>
      have hinside := hpasses.frames_ne_nil (hframes rfl)
      exact (exitEnvelope (hpasses.coherent hmarked) hinside).bind fun _ _ _ => .pure value

theorem framed {registry : Registry} (hregistry : registry.Declared) (framing : Framing)
    (hc : c.Coherent) (t : Target) (havailable : 0 < c.available) :
    GoesOn c (framed framing (registry.decodeTarget t)) := by
  refine (unwrap hc havailable).bind fun enveloped c₁ hunwrap => ?_
  refine atRoot hregistry ((walks_unwrap framing).coherent hc hunwrap) t fun henveloped => ?_
  rcases unwrap_eq_ok hc hunwrap with ⟨hno, -⟩ | ⟨-, -, hframes⟩
  · rw [hno] at henveloped
    cases henveloped
  · exact hframes

end GoesOn

/-! ## Streams that go on -/

/-- If a complete stream was read, and the input goes on, then the same value is read and
the rest is refused as trailing. -/
theorem rootValue_widen {registry : Registry} (hregistry : registry.Declared) (t : Target)
    {framing : Framing} {c c' : Cursor} (hc : c.Coherent) (hframes : c.frames = [])
    {value : t.Carrier} (h : rootValue framing (registry.decodeTarget t) c = .ok value c')
    {more : Bytes} (hmore : more ≠ []) (names : List String) :
    ∃ left, rootValue framing (registry.decodeTarget t) (c.widen more names) =
      .error (.mismatch (.trailingBytes more.length) c.size) left := by
  rw [rootValue_eq] at h ⊢
  obtain ⟨found, c₁, hpreamble, hrest⟩ := bind_eq_ok_iff.mp h
  obtain ⟨value', c₂, hframed, hfinish⟩ := bind_eq_ok_iff.mp hrest
  obtain ⟨hend, rfl, rfl⟩ := finish_eq_ok_iff.mp hfinish
  have hpreambleWalk := walks_readPreamble framing
  have hframedWalk := walks_framed framing (registry.walks_decodeTarget t)
  have hc₁ := hpreambleWalk.coherent hc hpreamble
  have hc₂ := hframedWalk.coherent hc₁ hframed
  obtain ⟨format, hcode⟩ := exists_code_of_framed hregistry hc₁ hframed
  obtain ⟨havailable, hhead⟩ := available_pos_of_peekByte? hcode
  -- Where there is no preamble, the format code stands at the start of the stream.
  have hpreambleOn : GoesOn c (readPreamble framing) := by
    refine .readPreamble hc hframes fun hnone => ⟨format, ?_⟩
    rw [hpreamble] at hnone
    cases hnone
    exact hhead
  obtain ⟨names₁, hpreamble'⟩ := hpreambleOn hpreamble more names
  obtain ⟨names₂, hframed'⟩ :=
    GoesOn.framed hregistry framing hc₁ t havailable hframed more names₁
  have hsize : c₂.size = c.size := by
    have hfirst := hpreambleWalk c
    rw [after_of_ok hpreamble] at hfirst
    have hsecond := hframedWalk c₁
    rw [after_of_ok hframed] at hsecond
    rw [hsecond.size_eq, hfirst.size_eq]
  refine ⟨c₂.widen more names₂, ?_⟩
  simp only [bind, EStateM.bind, hpreamble', hframed']
  rw [finish_widen hc₂ hend hmore names₂ value', hsize]

namespace Registry

variable {registry : Registry} {t : Target} {value : t.Carrier} {stream : Bytes}

private theorem start_append (stream more : Bytes) (limits : Limits) :
    Cursor.start (stream ++ more) limits = (Cursor.start stream limits).widen more [] := by
  simp only [Cursor.start, widen, List.length_append]

theorem decodeRoot_eq_ok (h : registry.decodeRoot t stream = .ok value) :
    ∃ c, registry.readStream (registry.decodeTarget t) stream = .ok value c := by
  unfold decodeRoot at h
  cases hread : registry.readStream (registry.decodeTarget t) stream with
  | ok result c =>
      rw [hread] at h
      cases h
      exact ⟨c, rfl⟩
  | error e c =>
      rw [hread] at h
      cases h

/-- What is appended to an accepted stream is reported as trailing, all of it, behind the
stream. -/
theorem decodeRoot_append (hregistry : registry.Declared)
    (h : registry.decodeRoot t stream = .ok value) {more : Bytes} (hmore : more ≠ []) :
    registry.decodeRoot t (stream ++ more) =
      .error (.mismatch (.trailingBytes more.length) stream.length) := by
  obtain ⟨c, hread⟩ := decodeRoot_eq_ok h
  obtain ⟨left, hread'⟩ := rootValue_widen hregistry t (start_coherent stream _) rfl hread hmore []
  rw [← start_append] at hread'
  have hwhole : registry.readStream (registry.decodeTarget t) (stream ++ more) =
      .error (.mismatch (.trailingBytes more.length) stream.length) left := hread'
  unfold decodeRoot
  rw [hwhole]

/-- **The accepted streams are prefix-free.**  Whatever is appended to an accepted stream is
refused as trailing, with its length and where it starts, and what is left of an accepted
stream when its end is cut off is refused. -/
theorem decodeRoot_prefix_free (hregistry : registry.Declared) (t : Target) {stream : Bytes}
    {value : t.Carrier} (h : registry.decodeRoot t stream = .ok value) :
    (∀ more, more ≠ [] → registry.decodeRoot t (stream ++ more) =
        .error (.mismatch (.trailingBytes more.length) stream.length)) ∧
      ∀ cut, cut <+: stream → cut ≠ stream → ∃ e, registry.decodeRoot t cut = .error e := by
  refine ⟨fun more hmore => decodeRoot_append hregistry h hmore, ?_⟩
  rintro cut ⟨more, rfl⟩ hshort
  have hmore : more ≠ [] := by
    rintro rfl
    exact hshort (List.append_nil cut).symm
  cases hcut : registry.decodeRoot t cut with
  | error e => exact ⟨e, rfl⟩
  | ok early =>
      -- Then the whole stream would have been refused.
      rw [decodeRoot_append hregistry hcut hmore] at h
      cases h

/-- Nine seconds, behind a preamble. -/
private def nineSecondStream : Bytes := streamMagic ++ dataSection :: nineSeconds

theorem duration_stream_refuses_more :
    numberedDurations.decodeRoot (.kind .duration) nineSecondStream = .ok (.duration ⟨9, 0⟩) ∧
      (∀ more, more ≠ [] →
        numberedDurations.decodeRoot (.kind .duration) (nineSecondStream ++ more) =
          .error (.mismatch (.trailingBytes more.length) nineSecondStream.length)) ∧
      ∀ cut, cut <+: nineSecondStream → cut ≠ nineSecondStream →
        ∃ e, numberedDurations.decodeRoot (.kind .duration) cut = .error e := by
  have hdecode : numberedDurations.decodeRoot (.kind .duration) nineSecondStream =
      .ok (.duration ⟨9, 0⟩) := by
    rfl
  exact ⟨hdecode, decodeRoot_prefix_free numberedDurations_declared (.kind .duration) hdecode⟩

end Registry

end AmqpEnvelope
