import AmqpEnvelope.Proofs.Text.Symbol

/-!
# Spellings of descriptors

A symbol stands for a fingerprint, for the name behind the namespace, or for itself
(`Descriptor.SpeltAs`, the rules of `Descriptor.ofWireSymbol` one by one).  From these rules it
follows what the namespace may do to a symbol and what it may not: it is added in writing, it is
left out of a name at most once, and otherwise two symbols stand for different descriptors
(`Descriptor.reads_symbols`).

A name that starts with the namespace keeps it, and the Base64 form of a fingerprint is a name
as long as the namespace is missing.  These are the two kinds of names that cannot be shortened.
-/

namespace AmqpEnvelope

/-- The text starts with the namespace. -/
def InNamespace (text : String) : Prop := ∃ rest, text = symbolNamespace ++ rest

/-- The text is the Base64 form of sixteen bytes. -/
def IsFingerprintText (text : String) : Prop := ∃ f : Fingerprint, text = f.text

/-- The long text is the short one behind the namespace, and the short one may stand for it: it
has no namespace of its own and is no fingerprint. -/
structure Shortens (short long : String) : Prop where
  eq : long = symbolNamespace ++ short
  not_inNamespace : ¬ InNamespace short
  not_fingerprint : ¬ IsFingerprintText short

/-! ## The namespace -/

theorem symbolNamespace_append_inj {a b : String} :
    symbolNamespace ++ a = symbolNamespace ++ b ↔ a = b := by
  rw [← String.toList_inj, String.toList_append, String.toList_append, List.append_cancel_left_eq,
    String.toList_inj]

theorem stripNamespace?_eq_none_iff {text : String} :
    stripNamespace? text = none ↔ ¬ InNamespace text := by
  simp only [Option.eq_none_iff_forall_ne_some, ne_eq, stripNamespace?_eq_some_iff, InNamespace,
    not_exists]

/-- A colon is no Base64. -/
theorem Base64.colon_not_mem_encodeText (bytes : Bytes) : ':' ∉ (encodeText bytes).toList := by
  have hsymbol : ∀ value < 64, Char.ofNat (symbol value).toNat ≠ ':' := by decide +kernel
  rw [encodeText, String.toList_ofList, List.mem_map]
  rintro ⟨byte, hbyte, hcolon⟩
  rcases mem_encode hbyte with rfl | ⟨value, hvalue, rfl⟩
  · revert hcolon
    decide
  · exact hsymbol value hvalue hcolon

/-- So no fingerprint starts with the namespace. -/
theorem Fingerprint.not_inNamespace (f : Fingerprint) : ¬ InNamespace f.text := by
  rintro ⟨rest, h⟩
  apply Base64.colon_not_mem_encodeText f.bytes
  rw [← Fingerprint.text, h, String.toList_append]
  exact List.mem_append_left _ (by decide)

namespace Descriptor

/-! ## Rules of spelling -/

/-- What a symbol stands for, rule by rule. -/
inductive SpeltAs : Descriptor → String → Prop
  /-- A fingerprint is its Base64 form behind the namespace. -/
  | fingerprint (f : Fingerprint) : SpeltAs (.fingerprint f) (symbolNamespace ++ f.text)
  /-- Whatever else is behind the namespace is a name. -/
  | qualified {name : String} (h : ¬ IsFingerprintText name) :
      SpeltAs (.symbol name) (symbolNamespace ++ name)
  /-- Without the namespace everything is a name. -/
  | plain {name : String} (h : ¬ InNamespace name) : SpeltAs (.symbol name) name

theorem SpeltAs.ofWireSymbol_eq {d : Descriptor} {text : String} (h : d.SpeltAs text) :
    ofWireSymbol text = d := by
  cases h with
  | fingerprint f => exact ofWireSymbol_eq_fingerprint_iff.mpr rfl
  | @qualified name hname =>
      have hstrip : stripNamespace? (symbolNamespace ++ name) = some name :=
        stripNamespace?_eq_some_iff.mpr rfl
      simp only [ofWireSymbol, hstrip]
      cases hfound : Fingerprint.ofBase64 name with
      | ok f => exact absurd ⟨f, Fingerprint.ofBase64_eq_ok_iff.mp hfound⟩ hname
      | error fault => rfl
  | plain hplain => simp only [ofWireSymbol, stripNamespace?_eq_none_iff.mpr hplain]

theorem speltAs_ofWireSymbol (text : String) : (ofWireSymbol text).SpeltAs text := by
  by_cases hqualified : InNamespace text
  · obtain ⟨rest, rfl⟩ := hqualified
    by_cases hrest : IsFingerprintText rest
    · obtain ⟨f, rfl⟩ := hrest
      rw [(SpeltAs.fingerprint f).ofWireSymbol_eq]
      exact .fingerprint f
    · rw [(SpeltAs.qualified hrest).ofWireSymbol_eq]
      exact .qualified hrest
  · rw [(SpeltAs.plain hqualified).ofWireSymbol_eq]
    exact .plain hqualified

/-- Reading a symbol goes by the rules. -/
theorem ofWireSymbol_eq_iff {text : String} {d : Descriptor} :
    ofWireSymbol text = d ↔ d.SpeltAs text :=
  ⟨fun h => h ▸ speltAs_ofWireSymbol text, SpeltAs.ofWireSymbol_eq⟩

/-- What a descriptor is written as is a symbol that it may be spelt as, with the namespace. -/
theorem SpeltAs.wireSymbol?_eq {d : Descriptor} {text : String} (h : d.SpeltAs text) :
    (∃ rest, text = symbolNamespace ++ rest ∧ d.wireSymbol? = some text) ∨
      ¬ InNamespace text ∧ d.wireSymbol? = some (symbolNamespace ++ text) := by
  cases h with
  | fingerprint f => exact .inl ⟨_, rfl, rfl⟩
  | qualified _ => exact .inl ⟨_, rfl, rfl⟩
  | plain hplain => exact .inr ⟨hplain, rfl⟩

/-- Two spellings of one descriptor differ by the namespace at most. -/
theorem SpeltAs.eq_or_shortens {d : Descriptor} {s t : String} (hs : d.SpeltAs s)
    (ht : d.SpeltAs t) : s = t ∨ Shortens s t ∨ Shortens t s := by
  cases hs with
  | fingerprint f =>
      cases ht
      exact .inl rfl
  | qualified hname =>
      cases ht with
      | qualified _ => exact .inl rfl
      | plain hplain => exact .inr (.inr ⟨rfl, hplain, hname⟩)
  | plain hplain =>
      cases ht with
      | qualified hname => exact .inr (.inl ⟨rfl, hplain, hname⟩)
      | plain _ => exact .inl rfl

theorem ofWireSymbol_eq_of_shortens {short long : String} (h : Shortens short long) :
    ofWireSymbol short = ofWireSymbol long := by
  obtain ⟨rfl, hplain, hname⟩ := h
  rw [(SpeltAs.plain hplain).ofWireSymbol_eq, (SpeltAs.qualified hname).ofWireSymbol_eq]

theorem ofWireSymbol_eq_ofWireSymbol_iff {s t : String} :
    ofWireSymbol s = ofWireSymbol t ↔ s = t ∨ Shortens s t ∨ Shortens t s := by
  constructor
  · intro h
    exact (ofWireSymbol_eq_iff.mp h).eq_or_shortens (speltAs_ofWireSymbol t)
  · rintro (rfl | h | h)
    · rfl
    · exact ofWireSymbol_eq_of_shortens h
    · exact (ofWireSymbol_eq_of_shortens h).symm

/-! ## Fingerprints by themselves -/

theorem ofFingerprint_eq_ok_iff_ofBase64 {text : String} {d : Descriptor} :
    ofFingerprint text = .ok d ↔
      ∃ f, Fingerprint.ofBase64 ((stripNamespace? text).getD text) = .ok f ∧ d = .fingerprint f := by
  unfold ofFingerprint
  dsimp only
  cases Fingerprint.ofBase64 ((stripNamespace? text).getD text) with
  | ok f => simp [eq_comm]
  | error fault => simp

/-- A text is accepted as a fingerprint with the namespace or without it. -/
theorem ofFingerprint_eq_ok_iff {text : String} {d : Descriptor} : ofFingerprint text = .ok d ↔
    ∃ f : Fingerprint, (text = f.text ∨ text = symbolNamespace ++ f.text) ∧
      d = ofWireSymbol (symbolNamespace ++ f.text) := by
  simp only [ofFingerprint_eq_ok_iff_ofBase64, Fingerprint.ofBase64_eq_ok_iff,
    (SpeltAs.fingerprint _).ofWireSymbol_eq]
  refine exists_congr fun f => and_congr_left fun _ => ?_
  by_cases hqualified : InNamespace text
  · obtain ⟨rest, rfl⟩ := hqualified
    have hne : symbolNamespace ++ rest ≠ f.text := fun h => f.not_inNamespace ⟨rest, h.symm⟩
    rw [stripNamespace?_eq_some_iff.mpr rfl, Option.getD_some, symbolNamespace_append_inj,
      or_iff_right hne]
  · have hne : text ≠ symbolNamespace ++ f.text := fun h => hqualified ⟨f.text, h⟩
    rw [stripNamespace?_eq_none_iff.mpr hqualified, Option.getD_none, or_iff_left hne]

/-! ## Symbols and descriptors -/

/-- What the symbols of streams and descriptors have to do with each other. -/
structure ReadsSymbols : Prop where
  /-- A symbol is a fingerprint if it is the Base64 form of one behind the namespace. -/
  fingerprint_iff : ∀ text f,
    ofWireSymbol text = .fingerprint f ↔ text = symbolNamespace ++ f.text
  /-- Otherwise one namespace is left out, if there is one. -/
  qualified : ∀ name, ¬ IsFingerprintText name →
    ofWireSymbol (symbolNamespace ++ name) = .symbol name
  /-- Where there is none, the symbol is the name. -/
  plain : ∀ name, ¬ InNamespace name → ofWireSymbol name = .symbol name
  /-- A symbol in the namespace is written as it was read. -/
  written_of_inNamespace : ∀ text, InNamespace text → (ofWireSymbol text).wireSymbol? = some text
  /-- Any other is written in the namespace. -/
  written_of_plain : ∀ text, ¬ InNamespace text →
    (ofWireSymbol text).wireSymbol? = some (symbolNamespace ++ text)
  /-- Two symbols stand for one descriptor only if one of them may be left short of its
  namespace. -/
  same_iff : ∀ s t, ofWireSymbol s = ofWireSymbol t ↔ s = t ∨ Shortens s t ∨ Shortens t s
  /-- Fingerprints are accepted by their Base64 form, and are those of their symbols. -/
  accepted_iff : ∀ text d, ofFingerprint text = .ok d ↔
    ∃ f : Fingerprint, (text = f.text ∨ text = symbolNamespace ++ f.text) ∧
      d = ofWireSymbol (symbolNamespace ++ f.text)

/-- **Symbols become keys without collisions.**  Only the namespace of a name may be left out, and
only once; in every other respect different symbols stand for different descriptors. -/
theorem reads_symbols : ReadsSymbols where
  fingerprint_iff _ _ := ofWireSymbol_eq_fingerprint_iff
  qualified _ h := (SpeltAs.qualified h).ofWireSymbol_eq
  plain _ h := (SpeltAs.plain h).ofWireSymbol_eq
  written_of_inNamespace text h := by
    rcases (speltAs_ofWireSymbol text).wireSymbol?_eq with ⟨-, -, hwritten⟩ | ⟨hplain, -⟩
    · exact hwritten
    · exact absurd h hplain
  written_of_plain text h := by
    rcases (speltAs_ofWireSymbol text).wireSymbol?_eq with ⟨rest, hrest, -⟩ | ⟨-, hwritten⟩
    · exact absurd ⟨rest, hrest⟩ h
    · exact hwritten
  same_iff _ _ := ofWireSymbol_eq_ofWireSymbol_iff
  accepted_iff _ _ := ofFingerprint_eq_ok_iff

/-- A name may be left short; behind a second namespace it may not, and neither may the Base64
form of a fingerprint. -/
example :
    ofWireSymbol "java.lang.Class" = ofWireSymbol "net.corda:java.lang.Class" ∧
      ofWireSymbol "net.corda:java.lang.Class" ≠
        ofWireSymbol "net.corda:net.corda:java.lang.Class" ∧
      ofWireSymbol "pgT0Kc3t/bvnzmgu/nb4Cg==" ≠
        ofWireSymbol "net.corda:pgT0Kc3t/bvnzmgu/nb4Cg==" := by
  decide +kernel

end Descriptor

end AmqpEnvelope
