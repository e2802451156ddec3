import AmqpEnvelope.Descriptor
import AmqpEnvelope.Proofs.Text.Base64
import AmqpEnvelope.Proofs.Text.Utf8
import Mathlib.Data.List.Basic

/-!
# Spellings of descriptors

Which symbols stand for which descriptors.  A name may be spelt with or without the
namespace; a fingerprint has one spelling only, since its Base64 form is unique
(`Descriptor.ofWireSymbol_eq_fingerprint_iff`).
-/

namespace AmqpEnvelope

theorem Utf8.encode_injective {a b : String} (h : Utf8.encode a = Utf8.encode b) : a = b := by
  have ha := Utf8.decode_eq_ok_iff.mpr (rfl : Utf8.encode a = Utf8.encode a)
  rw [h, Utf8.decode_eq_ok_iff.mpr rfl] at ha
  exact (Except.ok.inj ha).symm

/-! ## Fingerprints -/

namespace Base64

theorem symbol_toNat_lt {value : Nat} (h : value < 64) : (symbol value).toNat < 0x80 := by
  decide +revert +kernel

/-- A written form has no bytes but symbols and padding. -/
theorem mem_encode {bytes : Bytes} {byte : UInt8} (h : byte ∈ encode bytes) :
    byte = pad ∨ ∃ value < 64, byte = symbol value := by
  induction bytes using encode.induct with
  | case1 => cases h
  | case2 a | case3 a b =>
      have hbytes := fun b : UInt8 => b.toNat_lt
      simp only [encode, List.mem_cons, List.not_mem_nil, or_false] at h
      rcases h with rfl | rfl | rfl | rfl
      all_goals first
        | exact .inl rfl
        | exact .inr ⟨_, by grind, rfl⟩
  | case4 a b c rest ih =>
      have ha := a.toNat_lt
      have hb := b.toNat_lt
      have hc := c.toNat_lt
      simp only [encode, List.mem_cons] at h
      rcases h with rfl | rfl | rfl | rfl | h
      · exact .inr ⟨_, by omega, rfl⟩
      · exact .inr ⟨_, by omega, rfl⟩
      · exact .inr ⟨_, by omega, rfl⟩
      · exact .inr ⟨_, by omega, rfl⟩
      · exact ih h

theorem toNat_lt_of_mem_encode {bytes : Bytes} {byte : UInt8} (h : byte ∈ encode bytes) :
    byte.toNat < 0x80 := by
  rcases mem_encode h with rfl | ⟨value, hvalue, rfl⟩
  · decide
  · exact symbol_toNat_lt hvalue

theorem length_encode (bytes : Bytes) : (encode bytes).length = (bytes.length + 2) / 3 * 4 := by
  induction bytes using encode.induct with
  | case1 => rfl
  | case2 a => simp [encode]
  | case3 a b => simp [encode]
  | case4 a b c rest ih =>
      simp only [encode, List.length_cons, ih]
      omega

/-- The text of the written form is written as the form itself. -/
theorem utf8_encodeText (bytes : Bytes) : Utf8.encode (encodeText bytes) = encode bytes := by
  have hall : ∀ form : Bytes, (∀ byte ∈ form, byte.toNat < 0x80) →
      (form.map fun b => Char.ofNat b.toNat).flatMap String.utf8EncodeChar = form := by
    intro form hform
    induction form with
    | nil => rfl
    | cons byte rest ih =>
        rw [List.forall_mem_cons] at hform
        rw [List.map_cons, List.flatMap_cons, Utf8.utf8EncodeChar_byte hform.1, ih hform.2,
          List.singleton_append]
  rw [Utf8.encode, encodeText, String.toList_ofList]
  exact hall _ fun byte hbyte => toNat_lt_of_mem_encode hbyte

end Base64

/-- A text is a fingerprint exactly when it is the text of that fingerprint. -/
theorem Fingerprint.ofBase64_eq_ok_iff {text : String} {f : Fingerprint} :
    ofBase64 text = .ok f ↔ text = f.text := by
  constructor
  · intro h
    unfold ofBase64 at h
    dsimp only at h
    split at h
    next hlength =>
      split at h
      next decoded hdecode =>
        split at h
        next hsize =>
          cases h
          apply Utf8.encode_injective
          rw [Fingerprint.text, Base64.utf8_encodeText, Base64.decode_eq_ok_iff.mp hdecode]
        next => cases h
      next => cases h
    next => cases h
  · rintro rfl
    obtain ⟨bytes, hsize⟩ := f
    have hlength : (Base64.encode bytes).length = 24 := by
      rw [Base64.length_encode, hsize]
    have hdecode : Base64.decode (Base64.encode bytes) = .ok bytes :=
      Base64.decode_eq_ok_iff.mpr rfl
    simp only [ofBase64, Fingerprint.text, Base64.utf8_encodeText, hlength, if_true, hdecode,
      hsize, dite_true]

/-! ## Symbols -/

theorem stripNamespace?_eq_some_iff {text rest : String} :
    stripNamespace? text = some rest ↔ text = symbolNamespace ++ rest := by
  unfold stripNamespace?
  rw [Option.map_eq_some_iff]
  constructor
  · rintro ⟨chars, hchars, rfl⟩
    rw [List.isPrefixOf?_eq_some_iff_append_eq] at hchars
    apply String.toList_inj.mp
    rw [String.toList_append, String.toList_ofList, ← hchars]
  · rintro rfl
    refine ⟨rest.toList, ?_, String.ofList_toList⟩
    rw [List.isPrefixOf?_eq_some_iff_append_eq, String.toList_append]

namespace Descriptor

/-- Only the namespace may be left out of the symbol of a name. -/
theorem eq_or_eq_of_ofWireSymbol {text name : String} (h : ofWireSymbol text = .symbol name) :
    text = name ∨ text = symbolNamespace ++ name := by
  unfold ofWireSymbol at h
  split at h
  next rest hstrip =>
    split at h
    · cases h
    · cases h
      exact .inr (stripNamespace?_eq_some_iff.mp hstrip)
  next =>
    cases h
    exact .inl rfl

/-- A fingerprint is spelt in one way only. -/
theorem ofWireSymbol_eq_fingerprint_iff {text : String} {f : Fingerprint} :
    ofWireSymbol text = .fingerprint f ↔ text = symbolNamespace ++ f.text := by
  constructor
  · intro h
    unfold ofWireSymbol at h
    split at h
    next rest hstrip =>
      split at h
      next found hfound =>
        cases h
        rw [stripNamespace?_eq_some_iff.mp hstrip, Fingerprint.ofBase64_eq_ok_iff.mp hfound]
      next => cases h
    next => cases h
  · rintro rfl
    have hstrip : stripNamespace? (symbolNamespace ++ f.text) = some f.text :=
      stripNamespace?_eq_some_iff.mpr rfl
    have hfound : Fingerprint.ofBase64 f.text = .ok f := Fingerprint.ofBase64_eq_ok_iff.mpr rfl
    simp only [ofWireSymbol, hstrip, hfound]

/-- No other symbol stands for the descriptor of a symbol that is a fingerprint. -/
theorem ofWireSymbol_eq_iff_of_isFingerprint {text other : String}
    (h : (ofWireSymbol text).isFingerprint = true) :
    ofWireSymbol other = ofWireSymbol text ↔ other = text := by
  constructor
  · intro hsame
    cases hfound : ofWireSymbol text with
    | fingerprint f =>
        rw [hfound] at hsame
        rw [ofWireSymbol_eq_fingerprint_iff.mp hsame, ofWireSymbol_eq_fingerprint_iff.mp hfound]
    | symbol name =>
        rw [hfound] at h
        cases h
    | code value =>
        rw [hfound] at h
        cases h
  · rintro rfl
    rfl

end Descriptor

end AmqpEnvelope
