import AmqpEnvelope.Decode.Deferred
import AmqpEnvelope.Proofs.Decode.Kept
import AmqpEnvelope.Proofs.Framing.Envelope
import AmqpEnvelope.Proofs.Framing.RootSlot

/-!
# Deferred decoding of captured composites

What was captured may be asked for later, when there is a type for it.  Its bytes are then read as
a complete stream, so the settings for framing apply to them a second time.

* Without them there would be no difference to decoding the type at the start of the bytes
  (`Capture.DecodesDirectly`), and where they find nothing to do there is none.
* A captured composite has no preamble.  If one is required, nothing that was captured can be
  asked for.
* A composite under the descriptor of an envelope is captured in a slot below the root, as any
  other is.  Asked for later it stands at the root, where it has to be an envelope, and the object
  in it is decoded.

`Registry.decodesByFraming` says this of every capture, and `not_decodesDirectly` that the settings
do make a difference.
-/

namespace AmqpEnvelope

open Cursor Written

/-! ## Streams that are asked for -/

/-- To ask for the value of a stream is to decode the stream. -/
theorem Deferred.result_ofBytes (registry : Registry) (t : Target) (bytes : Bytes) :
    ((Deferred.ofBytes bytes : Deferred t.Carrier).materialize (fun r => r.decodeTarget t)
      registry).result = registry.decodeRoot t bytes := by
  have hempty : (Deferred.ofBytes bytes : Deferred t.Carrier).cached = none := rfl
  have hbytes : (Deferred.ofBytes bytes : Deferred t.Carrier).bytes = bytes := rfl
  rw [materialize, hempty, hbytes, Registry.decodeRoot]
  dsimp only
  split
  next value after hread => rw [hread]
  next e after hread => rw [hread]

namespace Registry

/-- The composite is captured in what a registry decodes, at any depth: at a cursor wherever it
may have been moved, or in a complete stream. -/
inductive Captures (registry : Registry) (p : Capture) : Prop
  | atCursor {bytes : Bytes} {limits : Limits} {c after : Cursor} {t : Target} {value : t.Carrier}
      (reachable : Reachable bytes limits c) (decoded : registry.decodeTarget t c = .ok value after)
      (captured : p ∈ t.captures value) : Captures registry p
  | inStream {bytes : Bytes} {t : Target} {value : t.Carrier}
      (decoded : registry.decodeRoot t bytes = .ok value) (captured : p ∈ t.captures value) :
      Captures registry p

theorem Captures.kept {registry : Registry} (hregistry : registry.Declared) {p : Capture}
    (h : registry.Captures p) : p.Kept := by
  have hkept : ∀ {c after : Cursor} {t : Target} {value : t.Carrier}, c.Coherent →
      registry.decodeTarget t c = .ok value after → p ∈ t.captures value → p.Kept := by
    intro c after t value hc hdecode hp
    obtain ⟨n, bs, hvalue, -⟩ :=
      (readsAt_target hregistry hc (Nat.lt_succ_self _) t).sound hdecode
    exact Grammar.kept_of_mem_captures hvalue hp
  cases h with
  | atCursor hc hdecode hp => exact hkept hc.coherent hdecode hp
  | inStream hdecode hp =>
      obtain ⟨_, root, left, hroot, hdecode⟩ := exists_rootSlot_of_decodeRoot hdecode
      exact hkept (coherent_of_rootSlot hroot) hdecode hp

/-! ## Values of a described type by themselves -/

/-- At the start of exactly one value, a described type is decoded if the value is one of the
type.  Nothing is left then, since one extent is no beginning of another. -/
theorem exists_decodeKind_iff {registry : Registry} (hregistry : registry.Declared) (k : Kind)
    {bytes : Bytes} {limits : Limits} {room levels : Nat} (hextent : Extent room bytes)
    (hlevels : limits.maxDepth < levels) {value : Known} :
    (∃ left, registry.decodeKind k (Cursor.start bytes limits) = .ok value left) ↔
      Grammar.target registry levels true (.kind k) limits 1 bytes value := by
  have hstart := before_start bytes limits
  have hallowance := hstart.allowance_eq
  have hreads : ReadsAt (Cursor.start bytes limits) (registry.decodeKind k)
      (Grammar.target registry levels true (.kind k)) :=
    readsAt_target hregistry hstart.coherent (by rwa [hallowance]) (.kind k)
  constructor
  · rintro ⟨left, hdecode⟩
    obtain ⟨n, bs, hvalue, hpasses⟩ := hreads.sound hdecode
    rw [hallowance] at hvalue
    obtain ⟨rfl, hread⟩ := Spans.target registry levels true (.kind k) hvalue
    obtain ⟨rest, hrest⟩ : bs <+: bytes := hpasses.1.front
    obtain rfl := hread.unique hextent (hrest.trans (List.append_nil bytes).symm)
    exact hvalue
  · intro hvalue
    obtain ⟨left, hdecode, -⟩ :=
      hreads.complete (hallowance ▸ Limits.le_refl _) hvalue (hstart.offers 1)
    exact ⟨left, hdecode⟩

end Registry

/-! ## What the settings make of a capture -/

namespace Capture

/-- Ask for a captured composite as a value of a described type. -/
def ask (registry : Registry) (k : Kind) (p : Capture) : Except DecodeError Known :=
  ((Deferred.ofBytes p.bytes : Deferred Known).materialize (fun r => r.decodeKind k)
    registry).result

/-- To ask for the composite is to decode the type at the start of its bytes. -/
def DecodesDirectly (registry : Registry) (k : Kind) (p : Capture) : Prop :=
  ∀ value, p.ask registry k = .ok value ↔ ∃ left,
    registry.decodeKind k (Cursor.start p.bytes registry.settings.limits) = .ok value left

/-- The composite is an envelope of complete values, and the type is decoded at the start of the
first of these, with the two levels of the envelope taken. -/
def DecodesObject (registry : Registry) (k : Kind) (p : Capture) (value : Known) : Prop :=
  ∃ depth cap object sections, registry.settings.limits = ⟨depth + 2, cap⟩ ∧
    EnvelopeOf cap (object :: sections) p.bytes ∧
      (∀ part ∈ object :: sections, Complete ⟨depth, cap⟩ part) ∧
        ∃ left, registry.decodeKind k (Cursor.start object ⟨depth, cap⟩) = .ok value left

/-- What becomes of a composite that is asked for, by the settings for framing. -/
structure DecodesByFraming (registry : Registry) (k : Kind) (p : Capture) : Prop where
  /-- Where a preamble is required, it is missed. -/
  of_required : registry.settings.framing.requirePreamble = true →
    p.ask registry k = .error (.invalidPreamble .missingMagic 0)
  /-- Otherwise decoding is direct, unless the composite is taken for an envelope. -/
  directly : registry.settings.framing.requirePreamble = false →
    (registry.settings.framing.unwrapEnvelope = true → p.descriptor ≠ envelopeDescriptor) →
      p.DecodesDirectly registry k
  /-- Then it has to be one, and the object in it is decoded. -/
  of_envelope : registry.settings.framing.requirePreamble = false →
    registry.settings.framing.unwrapEnvelope = true → p.descriptor = envelopeDescriptor →
      ∀ value, p.ask registry k = .ok value ↔ p.DecodesObject registry k value

variable {registry : Registry} {k : Kind} {p : Capture}

theorem ask_eq_decodeRoot : p.ask registry k = registry.decodeRoot (.kind k) p.bytes :=
  Deferred.result_ofBytes registry (.kind k) p.bytes

/-- A captured composite starts with a marker, so it has no preamble. -/
theorem Kept.not_magicStem (h : p.Kept) : ¬ magicStem <+: p.bytes := by
  obtain ⟨bounds, -, hextent, -⟩ := h
  obtain ⟨format, rest, hbytes⟩ := hextent.exists_code
  rw [hbytes]
  exact not_prefix_of_code rfl

theorem Kept.headed (h : p.Kept) : Headed p.descriptor p.bytes := by
  obtain ⟨bounds, -, -, head, raw, body, hbytes, hraw, hd, -⟩ := h
  exact ⟨head, raw, body, hbytes, hraw, hd⟩

theorem Kept.ask_of_required (h : p.Kept)
    (hrequire : registry.settings.framing.requirePreamble = true) :
    p.ask registry k = .error (.invalidPreamble .missingMagic 0) := by
  have hstem := h.not_magicStem
  have hmagic : ¬ streamMagic <+: p.bytes := fun hmagic =>
    hstem ((List.take_prefix 5 streamMagic).trans hmagic)
  have hpreamble : readPreamble registry.settings.framing
      (Cursor.start p.bytes registry.settings.limits) =
        .error (.invalidPreamble .missingMagic 0)
          (Cursor.start p.bytes registry.settings.limits) := by
    rw [readPreamble_of_not_magic _ hmagic, hrequire]
    exact if_neg hstem
  rw [ask_eq_decodeRoot, Registry.decodeRoot, Registry.readStream, rootValue_eq]
  simp only [bind, EStateM.bind, hpreamble]

theorem Kept.decodesDirectly (h : p.Kept) (hregistry : registry.Declared)
    (hrequire : registry.settings.framing.requirePreamble = false)
    (hbare : registry.settings.framing.unwrapEnvelope = true →
      p.descriptor ≠ envelopeDescriptor) : p.DecodesDirectly registry k := by
  intro value
  obtain ⟨bounds, -, hextent, -⟩ := id h
  have hlevels := Nat.lt_succ_self registry.settings.limits.maxDepth
  rw [ask_eq_decodeRoot, ← Registry.exists_readStream_iff,
    Registry.exists_decodeKind_iff hregistry k hextent hlevels]
  refine exists_rootValue_iff (.inl rfl) h.not_magicStem hrequire fun c hc => ?_
  refine hc.exists_framed_iff_of_bare (Spans.target _ _ _ _) (Shows.target _ _ _ _)
    (readsRoot_target hregistry hlevels (.kind k)) fun hon hheaded => ?_
  -- There is one descriptor in front, and it is not that of an envelope.
  exact hbare hon (hc.headed_unique h.headed hheaded)

theorem Kept.ask_of_envelope (h : p.Kept) (hregistry : registry.Declared)
    (hrequire : registry.settings.framing.requirePreamble = false)
    (hunwrap : registry.settings.framing.unwrapEnvelope = true)
    (henvelope : p.descriptor = envelopeDescriptor) (value : Known) :
    p.ask registry k = .ok value ↔ p.DecodesObject registry k value := by
  have hheaded : Headed envelopeDescriptor p.bytes := henvelope ▸ h.headed
  have hlevels := Nat.lt_succ_self (registry.settings.limits.maxDepth - 2)
  rw [ask_eq_decodeRoot, ← Registry.exists_readStream_iff, Registry.readStream,
    exists_rootValue_iff (.inl rfl) h.not_magicStem hrequire fun c hc =>
      hc.exists_framed_iff_of_headed (Spans.target registry _ true (.kind k))
        (readsRoot_target hregistry hlevels (.kind k)) hunwrap hheaded]
  constructor
  · rintro ⟨hroom, object, sections, henvelope, hparts, hvalue⟩
    have hobject := hparts object List.mem_cons_self
    refine ⟨registry.settings.limits.maxDepth - 2, _, object, sections, ?_, henvelope, ?_, ?_⟩
    · rw [Nat.sub_add_cancel hroom]
    · exact fun part hpart => complete_iff.mpr (hparts part hpart)
    · exact (Registry.exists_decodeKind_iff hregistry k hobject hlevels).mpr hvalue
  · rintro ⟨depth, cap, object, sections, hlimits, henvelope, hparts, hdecode⟩
    have hextents : ∀ part ∈ object :: sections, Extent depth part := fun part hpart =>
      complete_iff.mp (hparts part hpart)
    rw [hlimits] at hlevels ⊢
    have hobject := hextents object List.mem_cons_self
    exact ⟨Nat.le_add_left 2 depth, object, sections, henvelope, hextents,
      (Registry.exists_decodeKind_iff hregistry k hobject hlevels).mp hdecode⟩

end Capture

/-- **Whatever was captured is asked for as a stream of its own.**  By which registry and from
where it was captured does not matter; the settings for framing of the registry that it is asked
of do. -/
theorem Registry.decodesByFraming {registry other : Registry} (hregistry : registry.Declared)
    (hother : other.Declared) {p : Capture} (hp : registry.Captures p) (k : Kind) :
    p.DecodesByFraming other k where
  of_required := (hp.kept hregistry).ask_of_required
  directly := (hp.kept hregistry).decodesDirectly hother
  of_envelope := (hp.kept hregistry).ask_of_envelope hother

/-! ## Composites under a number, and under that of an envelope -/

section

/-- Nothing is known, everything is kept, and a preamble is required. -/
private def requiring : Registry := .empty ⟨.captureAll, ⟨4, 4⟩, ⟨true, true⟩⟩

/-- The same without a preamble. -/
private def unwrapping : Registry := .empty ⟨.captureAll, ⟨4, 4⟩, ⟨false, true⟩⟩

/-- Durations are registered under a further descriptor. -/
private def withDurations (r : Registry) (d : Descriptor) : Registry :=
  (r.registerAlias .duration d).2

private def numbered : Capture := .of (.code 7) Registry.nineSeconds 3

private def likeEnvelope : Capture :=
  .of envelopeDescriptor (Registry.envelopeHead ++ Registry.nineSecondFields) 10

/-- An envelope around the nine seconds under the number. -/
private def enveloped : Capture :=
  .of envelopeDescriptor (Registry.envelopeHead ++ [0xc0, 0x0a, 0x01] ++ numbered.bytes) 10

private theorem enveloped_list : ListOf 4 [numbered.bytes] ([0xc0, 0x0a, 0x01] ++ numbered.bytes) :=
  .inr ⟨(0xc0, 1), by decide, _, rfl, by decide, [0x01], rfl, rfl, [0x0a], rfl, rfl, rfl⟩

private theorem numbered_captured : requiring.Captures numbered := by
  have hroot : requiring.rootSlot (streamMagic ++ dataSection :: numbered.bytes) =
      .ok false ⟨numbered.bytes, 8, 17, [], ⟨4, 4⟩, some (0, 8), []⟩ := by
    rfl
  have hcoherent := Registry.coherent_of_rootSlot hroot
  have hdeclared : requiring.Declared := .empty _
  obtain ⟨after, hpasses, hslot⟩ := Registry.exists_decodeSlot_of_described hdeclared hcoherent
    Registry.nineSeconds_described (Registry.nineSecondFields_extent 0) (by decide) rfl rfl
    (.of_no_frames hcoherent rfl List.prefix_rfl 1)
  have hend : after.atEnd = true := by
    rw [hpasses.2]
    rfl
  have hread : requiring.readStream (requiring.decodeTarget .slot)
      (streamMagic ++ dataSection :: numbered.bytes) = .ok (.captured numbered) after := by
    rw [Registry.readStream_of_rootSlot _ hroot]
    exact bind_eq_ok_iff.mpr ⟨_, after, hslot, finish_eq_ok_iff.mpr ⟨hend, rfl, rfl⟩⟩
  exact .inStream (Registry.exists_readStream_iff.mp ⟨after, hread⟩) (List.mem_singleton.mpr rfl)

/-- The slot is the element of a list. -/
private theorem likeEnvelope_captured : unwrapping.Captures likeEnvelope := by
  have hreachable : Reachable ([0xc0, 0x11, 0x01] ++ likeEnvelope.bytes) ⟨4, 4⟩
      ⟨likeEnvelope.bytes, 3, 19, [⟨.list, 0, some 19, 1, 0⟩], ⟨4, 4⟩, none, []⟩ :=
    .step unwrapping .enterList .start
  have hdeclared : unwrapping.Declared := .empty _
  obtain ⟨after, -, hslot⟩ := Registry.exists_decodeSlot_of_described hdeclared
    hreachable.coherent (Registry.envelopeHead_described _) (Registry.nineSecondFields_extent 0)
    (by decide) rfl rfl ⟨by decide, List.prefix_rfl, by rintro _ _ ⟨⟩; decide⟩
  exact .atCursor (t := .slot) hreachable hslot (List.mem_singleton.mpr rfl)

private theorem enveloped_captured : unwrapping.Captures enveloped := by
  have hstart := before_start enveloped.bytes ⟨4, 4⟩
  have hdeclared : unwrapping.Declared := .empty _
  obtain ⟨after, -, hslot⟩ := Registry.exists_decodeSlot_of_described hdeclared hstart.coherent
    (Registry.envelopeHead_described _) (enveloped_list.extent 0) (by decide) rfl rfl
    (hstart.offers 1)
  exact .atCursor (t := .slot) .start hslot (List.mem_singleton.mpr rfl)

/-- A composite that was captured is asked for as a stream, and that may differ from decoding it:
for want of a preamble, or because an envelope is seen where there is none. -/
theorem Capture.not_decodesDirectly :
    (requiring.Captures numbered ∧
      ¬ numbered.DecodesDirectly (withDurations requiring (.code 7)) .duration) ∧
    (unwrapping.Captures likeEnvelope ∧
      ¬ likeEnvelope.DecodesDirectly (withDurations unwrapping envelopeDescriptor) .duration) := by
  refine ⟨⟨numbered_captured, fun hdirect => ?_⟩, likeEnvelope_captured, fun hdirect => ?_⟩
  · have hask := (hdirect (.duration ⟨9, 0⟩)).mpr ⟨_, by rfl⟩
    cases hask
  · have hask := (hdirect (.duration ⟨9, 0⟩)).mpr ⟨_, by rfl⟩
    cases hask

/-- Where no preamble is required the nine seconds are found, by themselves and in an envelope. -/
theorem Registry.nine_seconds_decoded :
    numbered.ask (withDurations requiring (.code 7)) .duration =
        .error (.invalidPreamble .missingMagic 0) ∧
      numbered.ask (withDurations unwrapping (.code 7)) .duration = .ok (.duration ⟨9, 0⟩) ∧
      enveloped.ask (withDurations unwrapping (.code 7)) .duration = .ok (.duration ⟨9, 0⟩) := by
  have hempty : ∀ settings, (Registry.empty settings).Declared := .empty
  have hdurations : ∀ settings, (withDurations (.empty settings) (.code 7)).Declared :=
    fun settings => .further _ _ (.empty settings)
  have hrequired : numbered.DecodesByFraming (withDurations requiring (.code 7)) .duration :=
    decodesByFraming (hempty _) (hdurations _) numbered_captured .duration
  have hnumbered : numbered.DecodesByFraming (withDurations unwrapping (.code 7)) .duration :=
    decodesByFraming (hempty _) (hdurations _) numbered_captured .duration
  have henveloped : enveloped.DecodesByFraming (withDurations unwrapping (.code 7)) .duration :=
    decodesByFraming (hempty _) (hdurations _) enveloped_captured .duration
  refine ⟨hrequired.of_required rfl, ?_, ?_⟩
  · exact (hnumbered.directly rfl (fun _ => by decide) _).mpr ⟨_, by rfl⟩
  · have henvelope : EnvelopeOf 4 [numbered.bytes] enveloped.bytes :=
      ⟨_, Registry.envelopeHead_described _, enveloped_list⟩
    have hobject : Complete ⟨2, 4⟩ numbered.bytes :=
      complete_iff.mpr (Registry.nineSeconds_described.extent (Registry.nineSecondFields_extent 1))
    exact (henveloped.of_envelope rfl rfl rfl _).mpr ⟨2, 4, numbered.bytes, [], rfl, henvelope,
      List.forall_mem_singleton.mpr hobject, _, by rfl⟩

end

end AmqpEnvelope
