import AmqpEnvelope.Proofs.Framing.Root
import AmqpEnvelope.Proofs.Written.Extent

/-!
# Framing is transparent

What a stream is decoded to depends on its object alone: whether the object stands by itself
or in an envelope, what else is in the envelope, and whether there is a preamble, makes no
difference (`Registry.framing_transparent`).  An envelope takes two levels of nesting, so
the object is left with the same room if two more are allowed.
-/

namespace AmqpEnvelope

open Cursor Written

/-! ## Limits of a registry -/

namespace Registry

/-- The registry with other limits. -/
def withLimits (r : Registry) (limits : Limits) : Registry :=
  { r with settings := { r.settings with limits := limits } }

theorem Declared.withLimits {r : Registry} (hr : r.Declared) (limits : Limits) :
    (r.withLimits limits).Declared :=
  hr.withSettings _

end Registry

/-- No grammar of a slot depends on the limits of the registry. -/
theorem Grammar.slot_withLimits (registry : Registry) (limits : Limits) (levels : Nat)
    (root : Bool) :
    slot (registry.withLimits limits) levels root = slot registry levels root := by
  induction levels generalizing root with
  | zero => rfl
  | succ levels ih =>
      rw [slot, ih, slot]
      rfl

theorem Grammar.target_withLimits (registry : Registry) (limits : Limits) (levels : Nat)
    (root : Bool) (t : Target) :
    target (registry.withLimits limits) levels root t = target registry levels root t := by
  cases t with
  | slot => exact slot_withLimits registry limits levels root
  | kind k =>
      rw [target, slot_withLimits]
      rfl

/-! ## Complete values -/

/-- The bytes are exactly one value: skipping it ends where they end. -/
def Complete (limits : Limits) (bytes : Bytes) : Prop :=
  ∃ c, skip (Cursor.start bytes limits) = .ok () c ∧ c.position = bytes.length

theorem complete_iff {limits : Limits} {bytes : Bytes} :
    Complete limits bytes ↔ Extent limits.maxDepth bytes := by
  have hstart := before_start bytes limits
  constructor
  · rintro ⟨c, hskip, hposition⟩
    obtain ⟨n, bs, ⟨-, hextent⟩, hpasses⟩ := (readsAt_skip hstart.coherent).sound hskip
    have hlength : bs.length = bytes.length := by
      rw [hpasses.2, past_position] at hposition
      exact (Nat.zero_add _).symm.trans hposition
    have hfront : bs <+: bytes := hpasses.1.front
    rw [hfront.eq_of_length hlength] at hextent
    exact hextent
  · intro hextent
    have hvalue : Grammar.extent limits 1 bytes () := ⟨rfl, hextent⟩
    obtain ⟨c, hskip, hpasses⟩ := (readsAt_skip hstart.coherent).complete
      (hstart.allowance_eq ▸ Limits.le_refl _) hvalue (hstart.offers 1)
    refine ⟨c, hskip, ?_⟩
    rw [hpasses.2, past_position]
    exact Nat.zero_add _

/-! ## Transparency -/

namespace Registry

/-- **Framing is transparent.**  An object is decoded to a value exactly if an envelope around it
is, with two more levels allowed; the other values in the envelope do not matter, and neither
does a preamble in front of the one or of the other. -/
theorem framing_transparent {registry : Registry} (hregistry : registry.Declared)
    (hrequire : registry.settings.framing.requirePreamble = false)
    (hunwrap : registry.settings.framing.unwrapEnvelope = true) (t : Target) {m cap : Nat}
    {object : Bytes} {sections : List Bytes} {envelope : Bytes}
    (hobject : Complete ⟨m, cap⟩ object)
    (hplain : ∀ body, ¬ Described (.code 0xc562000000000001) body object)
    (hsections : ∀ part ∈ sections, Complete ⟨m, cap⟩ part)
    (henvelope : EnvelopeOf cap (object :: sections) envelope) {stream enveloped : Bytes}
    (hstream : Prefaced object stream) (henveloped : Prefaced envelope enveloped)
    (value : t.Carrier) :
    (registry.withLimits ⟨m, cap⟩).decodeRoot t stream = .ok value ↔
      (registry.withLimits ⟨m + 2, cap⟩).decodeRoot t enveloped = .ok value := by
  have hextent : Extent m object := complete_iff.mp hobject
  have hparts : ∀ part ∈ object :: sections, Extent m part :=
    List.forall_mem_cons.mpr ⟨hextent, fun part hpart => complete_iff.mp (hsections part hpart)⟩
  have hbare : ¬ Headed envelopeDescriptor object := fun hheaded =>
    (headed_envelope_iff.mp hheaded).elim hplain
  -- Both sides say that the object is of the grammar, with room for as many levels.
  have hgrammar : ∀ depth, ReadsRoot ⟨m, cap⟩
      ((registry.withLimits ⟨depth, cap⟩).decodeTarget t)
        (Grammar.target registry (m + 1) true t) := by
    intro depth
    rw [← Grammar.target_withLimits registry ⟨depth, cap⟩]
    exact readsRoot_target (hregistry.withLimits _) (Nat.lt_succ_self m) t
  have hspans : Spans (Grammar.target registry (m + 1) true t) := Spans.target registry _ _ t
  have hobjectStem : ¬ magicStem <+: object := by
    obtain ⟨format, rest, rfl⟩ := hextent.exists_code
    exact not_prefix_of_code rfl
  have henvelopeStem : ¬ magicStem <+: envelope := by
    obtain ⟨list, ⟨descriptor, rfl, -⟩, -⟩ := henvelope
    have hmarker : (0x00 :: (descriptor ++ list)).head? = some FormatCode.described.toByte := rfl
    exact not_prefix_of_code hmarker
  have hleft : (∃ c, (registry.withLimits ⟨m, cap⟩).readStream
      ((registry.withLimits ⟨m, cap⟩).decodeTarget t) stream = .ok value c) ↔
        Grammar.target registry (m + 1) true t ⟨m, cap⟩ 1 object value :=
    exists_rootValue_iff hstream hobjectStem hrequire fun c hc =>
      hc.exists_framed_iff_of_bare hspans (Shows.target registry _ _ t) (hgrammar m) fun _ => hbare
  have hright : (∃ c, (registry.withLimits ⟨m + 2, cap⟩).readStream
      ((registry.withLimits ⟨m + 2, cap⟩).decodeTarget t) enveloped = .ok value c) ↔
        Grammar.target registry (m + 1) true t ⟨m, cap⟩ 1 object value :=
    exists_rootValue_iff henveloped henvelopeStem hrequire fun c hc =>
      hc.exists_framed_iff_of_envelope hspans (hgrammar (m + 2)) hunwrap henvelope hparts
        (Nat.le_add_left 2 m)
  rw [← exists_readStream_iff, ← exists_readStream_iff, hleft, hright]

theorem nineSecondFields_extent (room : Nat) : Extent room nineSecondFields := by
  have hlist : ListOf 2 [[0x53, 0x09], [0x43]] nineSecondFields :=
    .inr ⟨(0xc0, 1), by decide, _, rfl, by decide, [0x02], rfl, rfl, [0x04], rfl, rfl, rfl⟩
  exact hlist.extent room

theorem nineSeconds_described : Described (.code 7) nineSecondFields nineSeconds :=
  ⟨[0x53, 0x07], rfl, .code ⟨[0x07], ⟨(0x53, 1), by decide, rfl, rfl⟩, by decide⟩⟩

/-- What stands in front of the list of an envelope. -/
def envelopeHead : Bytes := [0x00, 0x80, 0xc5, 0x62, 0x00, 0x00, 0x00, 0x00, 0x00, 0x01]

theorem envelopeHead_described (body : Bytes) :
    Described (.code 0xc562000000000001) body (envelopeHead ++ body) :=
  ⟨[0x80, 0xc5, 0x62, 0x00, 0x00, 0x00, 0x00, 0x00, 0x01], rfl,
    .code ⟨_, ⟨(0x80, 8), by decide, rfl, rfl⟩, by decide⟩⟩

/-- The nine seconds, and two empty lists behind them. -/
private def nineSecondEnvelope : Bytes :=
  envelopeHead ++ ([0xc0, 0x0c, 0x03] ++ nineSeconds ++ [0x45, 0x45])

theorem duration_framing_transparent :
    (numberedDurations.withLimits ⟨2, 10⟩).decodeRoot (.kind .duration) nineSeconds =
        .ok (.duration ⟨9, 0⟩) ∧
      (numberedDurations.withLimits ⟨4, 10⟩).decodeRoot (.kind .duration)
        (streamMagic ++ dataSection :: nineSecondEnvelope) = .ok (.duration ⟨9, 0⟩) := by
  have hbare : (numberedDurations.withLimits ⟨2, 10⟩).decodeRoot (.kind .duration)
      nineSeconds = .ok (.duration ⟨9, 0⟩) := by
    rfl
  have hobject : Complete ⟨2, 10⟩ nineSeconds :=
    complete_iff.mpr (nineSeconds_described.extent (nineSecondFields_extent 1))
  have hsections : ∀ part ∈ ([[0x45], [0x45]] : List Bytes), Complete ⟨2, 10⟩ part := by
    have hempty : ListOf 10 [] [0x45] := .inl ⟨rfl, rfl⟩
    rw [List.forall_mem_cons, List.forall_mem_singleton]
    exact ⟨complete_iff.mpr (hempty.extent 2), complete_iff.mpr (hempty.extent 2)⟩
  have hplain : ∀ body, ¬ Described (.code 0xc562000000000001) body nineSeconds := by
    intro body hdescribed
    have hsame : envelopeDescriptor = .code 7 :=
      (before_start nineSeconds ⟨2, 10⟩).headed_unique
        (headed_envelope_iff.mpr ⟨body, hdescribed⟩)
        (headed_iff.mpr ⟨_, _, nineSeconds_described, rfl⟩)
    exact absurd hsame (by decide)
  have hlist : ListOf 10 [nineSeconds, [0x45], [0x45]]
      ([0xc0, 0x0c, 0x03] ++ nineSeconds ++ [0x45, 0x45]) :=
    .inr ⟨(0xc0, 1), by decide, _, rfl, by decide, [0x03], rfl, rfl, [0x0c], rfl, rfl, rfl⟩
  have henvelope : EnvelopeOf 10 [nineSeconds, [0x45], [0x45]] nineSecondEnvelope :=
    ⟨_, envelopeHead_described _, hlist⟩
  exact ⟨hbare, (framing_transparent numberedDurations_declared rfl rfl
    (.kind .duration) hobject hplain hsections henvelope (.inl rfl) (.inr rfl) _).mp hbare⟩

end Registry

end AmqpEnvelope
