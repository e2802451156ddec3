import AmqpEnvelope.Proofs.Text.Spelling

/-!
# Descriptors that are written and read back

Writing a descriptor puts its name, or the Base64 form of its fingerprint, behind the namespace.
Reading takes the namespace off again, and a fingerprint behind it wins over a name.  So a
descriptor is read back unless its name is itself the Base64 form of a fingerprint
(`Descriptor.Eclipsed`).  Such a name exists: it is what the bare Base64 form stands for.
-/

namespace AmqpEnvelope

namespace Descriptor

/-- A name that a fingerprint takes the place of once the namespace stands before it. -/
def Eclipsed (d : Descriptor) : Prop := ∃ f : Fingerprint, d = .symbol f.text

theorem symbol_eclipsed_iff {name : String} :
    (symbol name).Eclipsed ↔ IsFingerprintText name := by
  simp only [Eclipsed, IsFingerprintText, symbol.injEq]

theorem not_eclipsed_fingerprint (f : Fingerprint) : ¬ (fingerprint f).Eclipsed := by
  rintro ⟨g, h⟩
  exact nomatch h

/-! ## Where eclipsed names come from -/

/-- From a stream they come as bare fingerprints, and as nothing else. -/
theorem eclipsed_ofWireSymbol_iff {text : String} :
    (ofWireSymbol text).Eclipsed ↔ IsFingerprintText text := by
  refine exists_congr fun f => ?_
  rw [ofWireSymbol_eq_iff]
  constructor
  · generalize hd : symbol f.text = d
    rintro (g | hname | hplain)
    · exact nomatch hd
    · exact absurd ⟨f, (symbol.inj hd).symm⟩ hname
    · exact (symbol.inj hd).symm
  · rintro rfl
    exact .plain f.not_inNamespace

/-- A fingerprint that is given as a name becomes one, with the namespace or without it. -/
theorem eclipsed_ofName_iff {name : String} : (ofName name).Eclipsed ↔
    ∃ f : Fingerprint, name = f.text ∨ name = symbolNamespace ++ f.text := by
  rw [ofName, symbol_eclipsed_iff]
  refine exists_congr fun f => ?_
  by_cases hqualified : InNamespace name
  · obtain ⟨rest, rfl⟩ := hqualified
    have hne : symbolNamespace ++ rest ≠ f.text := fun h => f.not_inNamespace ⟨rest, h.symm⟩
    rw [stripNamespace?_eq_some_iff.mpr rfl, Option.getD_some, symbolNamespace_append_inj,
      or_iff_right hne]
  · have hne : name ≠ symbolNamespace ++ f.text := fun h => hqualified ⟨f.text, h⟩
    rw [stripNamespace?_eq_none_iff.mpr hqualified, Option.getD_none, or_iff_left hne]

/-- What is accepted as a fingerprint is no name. -/
theorem not_eclipsed_of_ofFingerprint {text : String} {d : Descriptor}
    (h : ofFingerprint text = .ok d) : ¬ d.Eclipsed := by
  obtain ⟨f, -, rfl⟩ := ofFingerprint_eq_ok_iff_ofBase64.mp h
  exact not_eclipsed_fingerprint f

/-! ## Reading what was written -/

theorem wireSymbol?_eq_some_iff {d : Descriptor} {s : String} : d.wireSymbol? = some s ↔
    (∃ name, d = .symbol name ∧ s = symbolNamespace ++ name) ∨
      ∃ f, d = .fingerprint f ∧ s = symbolNamespace ++ f.text := by
  cases d <;> simp [wireSymbol?, eq_comm]

/-- What an eclipsed name is written as is the symbol of the fingerprint. -/
theorem ofWireSymbol_of_eclipsed {f : Fingerprint} {s : String}
    (h : (symbol f.text).wireSymbol? = some s) : ofWireSymbol s = .fingerprint f := by
  obtain rfl : symbolNamespace ++ f.text = s := Option.some.inj h
  exact (SpeltAs.fingerprint f).ofWireSymbol_eq

theorem ofWireSymbol_written_iff {d : Descriptor} {s : String} (h : d.wireSymbol? = some s) :
    ofWireSymbol s = d ↔ ¬ d.Eclipsed := by
  rcases wireSymbol?_eq_some_iff.mp h with ⟨name, rfl, rfl⟩ | ⟨f, rfl, rfl⟩
  · rw [symbol_eclipsed_iff]
    constructor
    · rintro hread ⟨f, rfl⟩
      rw [(SpeltAs.fingerprint f).ofWireSymbol_eq] at hread
      exact nomatch hread
    · exact fun hname => (SpeltAs.qualified hname).ofWireSymbol_eq
  · exact iff_of_true (SpeltAs.fingerprint f).ofWireSymbol_eq (not_eclipsed_fingerprint f)

/-- Two descriptors share a symbol if one of them is a name that the other one eclipses. -/
theorem written_alike_iff {d e : Descriptor} {s : String} (h : d.wireSymbol? = some s) :
    e.wireSymbol? = some s ↔ e = d ∨ ∃ f : Fingerprint,
      d = .symbol f.text ∧ e = .fingerprint f ∨ d = .fingerprint f ∧ e = .symbol f.text := by
  constructor
  · intro he
    rcases wireSymbol?_eq_some_iff.mp h with ⟨name, rfl, rfl⟩ | ⟨f, rfl, rfl⟩ <;>
      rcases wireSymbol?_eq_some_iff.mp he with ⟨other, rfl, hs⟩ | ⟨g, rfl, hs⟩
    · exact .inl (congrArg symbol (symbolNamespace_append_inj.mp hs).symm)
    · obtain rfl := symbolNamespace_append_inj.mp hs
      exact .inr ⟨g, .inl ⟨rfl, rfl⟩⟩
    · obtain rfl := symbolNamespace_append_inj.mp hs
      exact .inr ⟨f, .inr ⟨rfl, rfl⟩⟩
    · -- both are read from the one symbol that they are written as
      have hread := (SpeltAs.fingerprint f).ofWireSymbol_eq
      rw [hs, (SpeltAs.fingerprint g).ofWireSymbol_eq] at hread
      exact .inl hread
  · rintro (rfl | ⟨f, ⟨rfl, rfl⟩ | ⟨rfl, rfl⟩⟩)
    · exact h
    · exact h
    · exact h

/-- What becomes of a descriptor that is written and read back. -/
structure ReadsBack (d : Descriptor) : Prop where
  /-- Names and fingerprints are written, codes are not. -/
  written_iff : (∃ s, d.wireSymbol? = some s) ↔ ∀ n, d ≠ .code n
  /-- What is written is read as the descriptor itself, eclipsed names apart. -/
  read_iff : ∀ s, d.wireSymbol? = some s → (ofWireSymbol s = d ↔ ¬ d.Eclipsed)
  /-- An eclipsed name is read as the fingerprint, -/
  eclipsed : ∀ (f : Fingerprint) s, d = .symbol f.text → d.wireSymbol? = some s →
    ofWireSymbol s = .fingerprint f
  /-- although there is one symbol that stands for it. -/
  eclipsed_spelt_iff : ∀ (f : Fingerprint) s, d = .symbol f.text → (ofWireSymbol s = d ↔ s = f.text)
  /-- No other descriptor is written in the same way, but for a name and the fingerprint that
  eclipses it. -/
  alike_iff : ∀ e s, d.wireSymbol? = some s → (e.wireSymbol? = some s ↔
    e = d ∨ ∃ f : Fingerprint,
      d = .symbol f.text ∧ e = .fingerprint f ∨ d = .fingerprint f ∧ e = .symbol f.text)
  /-- A text in a stream gives an eclipsed name only if it is a bare fingerprint. -/
  ofWireSymbol_iff : ∀ text, ofWireSymbol text = d → (d.Eclipsed ↔ IsFingerprintText text)
  /-- A type name gives one only if it is a fingerprint. -/
  ofName_iff : ∀ name, ofName name = d → (d.Eclipsed ↔
    ∃ f : Fingerprint, name = f.text ∨ name = symbolNamespace ++ f.text)
  /-- What is accepted as a fingerprint is none. -/
  ofFingerprint : ∀ text, ofFingerprint text = .ok d → ¬ d.Eclipsed

/-- **Writing and reading.**  Every descriptor that is written is read back, except the names that
look like fingerprints. -/
theorem reads_back (d : Descriptor) : d.ReadsBack where
  written_iff := by
    cases d <;> simp [wireSymbol?]
  read_iff _ h := ofWireSymbol_written_iff h
  eclipsed f s hd h := ofWireSymbol_of_eclipsed (hd ▸ h)
  eclipsed_spelt_iff f s hd := by
    subst hd
    constructor
    · intro hread
      obtain ⟨g, rfl⟩ := eclipsed_ofWireSymbol_iff.mp ⟨f, hread⟩
      rw [(SpeltAs.plain g.not_inNamespace).ofWireSymbol_eq] at hread
      exact symbol.inj hread
    · rintro rfl
      exact (SpeltAs.plain f.not_inNamespace).ofWireSymbol_eq
  alike_iff _ _ h := written_alike_iff h
  ofWireSymbol_iff _ h := h ▸ eclipsed_ofWireSymbol_iff
  ofName_iff _ h := h ▸ eclipsed_ofName_iff
  ofFingerprint _ h := not_eclipsed_of_ofFingerprint h

/-- The bare Base64 form and the one behind the namespace stand for different descriptors, which
are written alike: the name is read back as the fingerprint. -/
theorem bare_fingerprint_not_read_back :
    let d := ofWireSymbol "pgT0Kc3t/bvnzmgu/nb4Cg=="
    let e := ofWireSymbol "net.corda:pgT0Kc3t/bvnzmgu/nb4Cg=="
    d.wireSymbol? = some "net.corda:pgT0Kc3t/bvnzmgu/nb4Cg==" ∧
      e.wireSymbol? = d.wireSymbol? ∧ e ≠ d := by
  decide +kernel

end Descriptor

end AmqpEnvelope
