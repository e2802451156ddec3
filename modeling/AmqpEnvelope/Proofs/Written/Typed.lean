import AmqpEnvelope.Proofs.Grammar.Typed
import AmqpEnvelope.Proofs.Registry.Standard
import AmqpEnvelope.Proofs.Text.Symbol
import AmqpEnvelope.Proofs.Written.Row

/-!
# Written values of described types

A value of a described type is written as a composite under one of the names of the type.
Under the standard registry a typed field accepts these names and no others (`Named`), and so
it accepts the composites that are written with them (`Grammar.typed_written_iff`).
-/

namespace AmqpEnvelope

open Written

namespace Written

/-- A name, with and without the namespace. -/
def spelt (name : String) : List String := [name, "net.corda:" ++ name]

/-- A list of values, each in its form. -/
def ListWith {α : Type} (cap : Nat) (form : α → Bytes → Prop) (values : List α) (bytes : Bytes) :
    Prop :=
  ∃ items, List.Forall₂ form values items ∧ ListOf cap items bytes

end Written

/-! ## Names of types -/

/-- Typed fields of a standard registry accept the composites under these names. -/
def Named (k : Kind) (names : List String) : Prop :=
  ∀ (settings : Settings) (raw : RawDescriptor),
    (Registry.standard settings).accepts k raw.descriptor = true ↔
      ∃ name ∈ names, raw = .symbol name

namespace Named

variable {k : Kind}

/-- A name that is none of a fingerprint may be spelt in two ways. -/
theorem of_spelt (hk : k ≠ .byteSequence)
    (hplain : Descriptor.ofWireSymbol k.descriptorText = .symbol k.descriptorText)
    (hspelt : Descriptor.ofWireSymbol ("net.corda:" ++ k.descriptorText) =
      .symbol k.descriptorText) : Named k (spelt k.descriptorText) := by
  intro settings raw
  rw [Registry.standard_accepts_iff, Kind.descriptor, hplain]
  simp only [spelt, List.mem_cons, List.not_mem_nil, or_false, exists_eq_or_imp, exists_eq_left]
  constructor
  · rintro (hraw | ⟨hsequence, -⟩)
    · cases raw with
      | symbol text =>
          have hsymbol : Descriptor.ofWireSymbol text = .symbol k.descriptorText := hraw
          rcases Descriptor.eq_or_eq_of_ofWireSymbol hsymbol with rfl | rfl
          · exact .inl rfl
          · exact .inr rfl
      | code value => cases hraw
    · exact absurd hsequence hk
  · rintro (rfl | rfl)
    · exact .inl hplain
    · exact .inl hspelt

/-- The names of byte sequences are fingerprints, which have no other spelling. -/
theorem byteSequence : Named .byteSequence
    ["net.corda:pgT0Kc3t/bvnzmgu/nb4Cg==", "net.corda:0UvJuq940P0jrySmql4EPg=="] := by
  intro settings raw
  have hsequence : Kind.byteSequence.descriptor.isFingerprint = true := by decide +kernel
  have hwindow : (Descriptor.ofWireSymbol Registry.byteWindowText).isFingerprint = true := by
    decide +kernel
  simp only [Registry.standard_accepts_iff, true_and, List.mem_cons, List.not_mem_nil, or_false,
    exists_eq_or_imp, exists_eq_left]
  cases raw with
  | symbol text =>
      rw [RawDescriptor.symbol.injEq, RawDescriptor.symbol.injEq]
      exact or_congr (Descriptor.ofWireSymbol_eq_iff_of_isFingerprint hsequence)
        (Descriptor.ofWireSymbol_eq_iff_of_isFingerprint hwindow)
  | code value =>
      refine ⟨?_, nofun⟩
      rintro (hcode | hcode)
      · rw [← hcode] at hsequence
        cases hsequence
      · rw [← hcode] at hwindow
        cases hwindow

theorem duration : Named .duration (spelt "java.time.Duration") :=
  of_spelt (by decide) (by decide +kernel) (by decide +kernel)

theorem componentGroup :
    Named .componentGroup (spelt "net.corda.core.transactions.ComponentGroup") :=
  of_spelt (by decide) (by decide +kernel) (by decide +kernel)

theorem privacySalt : Named .privacySalt (spelt "net.corda.core.contracts.PrivacySalt") :=
  of_spelt (by decide) (by decide +kernel) (by decide +kernel)

theorem wireTransaction :
    Named .wireTransaction (spelt "net.corda.core.transactions.WireTransaction") :=
  of_spelt (by decide) (by decide +kernel) (by decide +kernel)

theorem serializedBytes :
    Named .serializedBytes (spelt "net.corda.core.serialization.SerializedBytes") :=
  of_spelt (by decide) (by decide +kernel) (by decide +kernel)

theorem signatureMetadata :
    Named .signatureMetadata (spelt "net.corda.core.crypto.SignatureMetadata") :=
  of_spelt (by decide) (by decide +kernel) (by decide +kernel)

theorem transactionSignature :
    Named .transactionSignature (spelt "net.corda.core.crypto.TransactionSignature") :=
  of_spelt (by decide) (by decide +kernel) (by decide +kernel)

end Named

/-! ## Composites -/

theorem Splits.ite {α : Type} {g : Grammar α} {rows : Limits → List Bytes → α → Prop} {p : Prop}
    [Decidable p] (h : Splits g rows) :
    Splits (if p then g else Grammar.fail) fun bounds items value =>
      p ∧ rows bounds items value := by
  split
  next hp => exact h.of_iff fun _ _ _ => (and_iff_right hp).symm
  next hp => exact fail.of_iff fun _ _ _ => (iff_of_false id fun h => hp h.1)

namespace Grammar

variable {α β : Type} {settings : Settings} {k : Kind} {names : List String} {bounds : Limits}
  {n : Nat} {bs : Bytes}

/-- A composite is its fields, written as a described list. -/
theorem composite_written_iff {fields : Descriptor → Grammar α}
    {rows : Descriptor → Limits → List Bytes → α → Prop} {value : α}
    (hfields : ∀ d, Splits (fields d) (rows d)) :
    composite fields bounds n bs value ↔ n = 1 ∧ 2 ≤ bounds.maxDepth ∧
      ∃ raw list items, Described raw list bs ∧ ListOf bounds.maxCollectionLength items list ∧
        rows raw.descriptor bounds.inner.inner items value := by
  simp only [composite, described_written_iff, listed_iff fun _ => hfields _, true_and]
  constructor
  · rintro ⟨rfl, hroom, raw, list, hdescribed, hinner, items, hlist, hrows⟩
    have hinner : 0 < bounds.maxDepth - 1 := hinner
    exact ⟨rfl, by omega, raw, list, items, hdescribed, hlist, hrows⟩
  · rintro ⟨rfl, hroom, raw, list, items, hdescribed, hlist, hrows⟩
    have hinner : 0 < bounds.inner.maxDepth := Nat.sub_pos_of_lt hroom
    exact ⟨rfl, by omega, raw, list, hdescribed, hinner, items, hlist, hrows⟩

/-- A typed field of a standard registry is a composite under one of the names of its type. -/
theorem typed_written_iff {fields : Grammar α} {rows : Limits → List Bytes → α → Prop} {value : α}
    (hnames : Named k names) (hfields : Splits fields rows) :
    typed (.standard settings) k fields bounds n bs value ↔ n = 1 ∧ 2 ≤ bounds.maxDepth ∧
      ∃ items, Composite bounds.maxCollectionLength names items bs ∧
        rows bounds.inner.inner items value := by
  rw [typed, composite_written_iff fun _ => hfields.ite]
  refine and_congr_right fun _ => and_congr_right fun _ => ⟨?_, ?_⟩
  · rintro ⟨raw, list, items, hdescribed, hlist, haccepts, hrows⟩
    obtain ⟨name, hname, rfl⟩ := (hnames settings raw).mp haccepts
    exact ⟨items, ⟨name, hname, list, hdescribed, hlist⟩, hrows⟩
  · rintro ⟨items, ⟨name, hname, list, hdescribed, hlist⟩, hrows⟩
    exact ⟨_, list, items, hdescribed, hlist, (hnames settings _).mpr ⟨name, hname, rfl⟩, hrows⟩

/-- A list of values that are each written in their form. -/
theorem listOf_with_iff {g : Grammar α} (hg : Spans g) (hroom : 0 < bounds.maxDepth)
    {form : α → Bytes → Prop} (hform : ∀ item value, g bounds.inner 1 item value ↔ form value item)
    {values : List α} :
    listOf g bounds 1 bs values ↔ ListWith bounds.maxCollectionLength form values bs := by
  rw [listOf_written_iff hg, and_iff_right rfl, and_iff_right hroom]
  refine exists_congr fun items => ?_
  rw [and_comm]
  refine and_congr_left fun _ => ⟨fun hall => ?_, fun hall => ?_⟩
  · exact List.Forall₂.flip (hall.imp fun item value => (hform item value).mp)
  · exact List.Forall₂.flip (hall.imp fun value item => (hform item value).mpr)

/-- What is made of the elements of a container may be made of the container. -/
theorem container_map {ι : Type} (f : α → β) (heads : HeadGrammar ι) (elements : ι → Grammar α) :
    container heads (fun info => f <$> elements info) = f <$> container heads elements := by
  funext bounds n bs value
  apply propext
  rw [map_iff]
  constructor
  · rintro ⟨rfl, hroom, head, heading, info, body, rfl, hhead, hsize, hvalue⟩
    obtain ⟨a, ha, rfl⟩ := map_iff.mp hvalue
    exact ⟨a, ⟨rfl, hroom, head, heading, info, body, rfl, hhead, hsize, ha⟩, rfl⟩
  · rintro ⟨a, ⟨rfl, hroom, head, heading, info, body, rfl, hhead, hsize, ha⟩, rfl⟩
    exact ⟨rfl, hroom, head, heading, info, body, rfl, hhead, hsize, map_iff.mpr ⟨a, ha, rfl⟩⟩

theorem composite_map (f : α → β) (fields : Descriptor → Grammar α) :
    composite (fun d => f <$> fields d) = f <$> composite fields := by
  simp only [composite, described, listed, container_map]

theorem typed_map (registry : Registry) (k : Kind) (f : α → β) (fields : Grammar α) :
    typed registry k (f <$> fields) = f <$> typed registry k fields := by
  have hfail : (fail : Grammar β) = f <$> (fail : Grammar α) := by
    funext bounds n bs value
    apply propext
    rw [map_iff]
    exact ⟨False.elim, fun ⟨_, h, _⟩ => h⟩
  rw [typed, typed, ← composite_map]
  congr 1
  funext d
  split
  · rfl
  · exact hfail

end Grammar

end AmqpEnvelope
