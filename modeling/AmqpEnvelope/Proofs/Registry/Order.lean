import AmqpEnvelope.Descriptor
import AmqpEnvelope.Proofs.Text.Utf8

/-!
# The order of descriptors

Descriptors are listed in an order of their encodings: symbols by the bytes of their names, then
fingerprints by their bytes, then numbers (`Descriptor.Precedes`).  The order key compares names
by characters instead.  That is the same, because UTF-8 keeps the order of characters
(`Utf8.encode_lt_encode_iff`): the first byte of a character says how many sextets follow, and
those are written from the top.
-/

namespace AmqpEnvelope

/-! ## The order of encodings -/

namespace Utf8

/-- Of two values with the same bits above the lowest sextets, the smaller one has the smaller
bytes, whatever follows. -/
theorem continuation_append_lt {count a b : Nat} (htop : a / 64 ^ count = b / 64 ^ count)
    (h : a < b) (as bs : Bytes) : continuation count a ++ as < continuation count b ++ bs := by
  induction count with
  | zero =>
      rw [Nat.pow_zero, Nat.div_one, Nat.div_one] at htop
      omega
  | succ count ih =>
      rw [Nat.pow_succ, ← Nat.div_div_eq_div_mul, ← Nat.div_div_eq_div_mul] at htop
      have hle : a / 64 ^ count ≤ b / 64 ^ count := Nat.div_le_div_right (Nat.le_of_lt h)
      simp only [continuation, List.cons_append, List.cons_lt_cons_iff]
      by_cases heq : a / 64 ^ count = b / 64 ^ count
      · exact .inr ⟨by rw [heq], ih heq⟩
      · left
        rw [UInt8.lt_iff_toNat_lt, UInt8.toNat_ofNat', UInt8.toNat_ofNat']
        omega

/-- A smaller character has a smaller first byte, or the same one and the same bits in it. -/
theorem first_lt_or_eq {a b : Nat} (h : a < b) :
    first a < first b ∨ first a = first b ∧ following a = following b ∧
      a / 64 ^ following a = b / 64 ^ following b := by
  by_cases hsame : following a = following b
  · have hle : a / 64 ^ following b ≤ b / 64 ^ following b :=
      Nat.div_le_div_right (Nat.le_of_lt h)
    rw [first, first, hsame]
    rcases Nat.lt_or_eq_of_le hle with hlt | heq
    · exact .inl (Nat.add_lt_add_left hlt _)
    · exact .inr ⟨by rw [heq], rfl, heq⟩
  · -- More sextets follow the larger one, and its first byte announces them.
    left
    revert hsame
    unfold first following
    repeat' split
    all_goals intro hsame; simp only [mark]; omega

theorem utf8EncodeChar_append_lt {c d : Char} (h : c.toNat < d.toNat) (as bs : Bytes) :
    String.utf8EncodeChar c ++ as < String.utf8EncodeChar d ++ bs := by
  rw [utf8EncodeChar_eq, utf8EncodeChar_eq, List.cons_append, List.cons_append,
    List.cons_lt_cons_iff]
  rcases first_lt_or_eq h with hfirst | ⟨hfirst, hfollowing, htop⟩
  · left
    rw [UInt8.lt_iff_toNat_lt, UInt8.toNat_ofNat', UInt8.toNat_ofNat',
      Nat.mod_eq_of_lt (first_lt (toNat_isValidChar c)),
      Nat.mod_eq_of_lt (first_lt (toNat_isValidChar d))]
    exact hfirst
  · rw [hfollowing] at htop ⊢
    exact .inr ⟨by rw [hfirst], continuation_append_lt htop h as bs⟩

/-- Character by character, encodings are ordered as texts are. -/
theorem flatMap_lt {as bs : List Char} (h : as.map Char.toNat < bs.map Char.toNat) :
    as.flatMap String.utf8EncodeChar < bs.flatMap String.utf8EncodeChar := by
  induction as generalizing bs with
  | nil =>
      cases bs with
      | nil => exact absurd h (List.lt_irrefl _)
      | cons d bs =>
          rw [List.flatMap_cons, utf8EncodeChar_eq]
          exact List.nil_lt_cons _ _
  | cons c as ih =>
      cases bs with
      | nil => exact absurd h (List.not_lt_nil _)
      | cons d bs =>
          rw [List.map_cons, List.map_cons, List.cons_lt_cons_iff] at h
          rw [List.flatMap_cons, List.flatMap_cons]
          rcases h with hlt | ⟨heq, hrest⟩
          · exact utf8EncodeChar_append_lt hlt _ _
          · rw [Char.toNat_inj.mp heq]
            exact List.append_left_lt (ih hrest)

/-- **UTF-8 keeps the order of texts.** -/
theorem encode_lt_encode_iff {a b : String} :
    encode a < encode b ↔ a.toList.map Char.toNat < b.toList.map Char.toNat := by
  refine ⟨fun h => ?_, flatMap_lt⟩
  rcases Std.lt_trichotomy (a.toList.map Char.toNat) (b.toList.map Char.toNat) with hlt | heq | hgt
  · exact hlt
  · have hsame : a.toList = b.toList := (List.map_inj_right fun _ _ => Char.toNat_inj.mp).mp heq
    rw [encode, encode, hsame] at h
    exact absurd h (List.lt_irrefl _)
  · exact absurd (List.lt_trans h (flatMap_lt hgt)) (List.lt_irrefl _)

end Utf8

/-! ## Descriptors -/

namespace Descriptor

/-- Symbols stand first, by the bytes of their names, then fingerprints by their bytes, then
numbers. -/
inductive Precedes : Descriptor → Descriptor → Prop
  | symbols {a b : String} (h : Utf8.encode a < Utf8.encode b) : Precedes (.symbol a) (.symbol b)
  | symbolFingerprint (a : String) (f : Fingerprint) : Precedes (.symbol a) (.fingerprint f)
  | symbolCode (a : String) (n : UInt64) : Precedes (.symbol a) (.code n)
  | fingerprints {f g : Fingerprint} (h : f.bytes < g.bytes) :
      Precedes (.fingerprint f) (.fingerprint g)
  | fingerprintCode (f : Fingerprint) (n : UInt64) : Precedes (.fingerprint f) (.code n)
  | codes {m n : UInt64} (h : m < n) : Precedes (.code m) (.code n)

theorem not_before_self (a : Descriptor) : ¬ a.before a = true :=
  fun h => List.lt_irrefl _ (of_decide_eq_true h)

theorem before_trans {a b c : Descriptor} (hab : a.before b = true) (hbc : b.before c = true) :
    a.before c = true :=
  decide_eq_true (List.lt_trans (of_decide_eq_true hab) (of_decide_eq_true hbc))

/-- Of two descriptors one stands before the other. -/
theorem before_of_not_before {a b : Descriptor} (hne : a ≠ b) (h : ¬ a.before b = true) :
    b.before a = true := by
  rcases Std.lt_trichotomy a.key b.key with hlt | heq | hgt
  · exact absurd (decide_eq_true hlt) h
  · exact absurd (key_injective heq) hne
  · exact decide_eq_true hgt

theorem map_toNat_lt_iff {as bs : Bytes} :
    as.map UInt8.toNat < bs.map UInt8.toNat ↔ as < bs := by
  induction as generalizing bs with
  | nil =>
      cases bs with
      | nil => exact iff_of_false (List.lt_irrefl _) (List.lt_irrefl _)
      | cons b bs => exact iff_of_true (List.nil_lt_cons _ _) (List.nil_lt_cons _ _)
  | cons a as ih =>
      cases bs with
      | nil => exact iff_of_false (List.not_lt_nil _) (List.not_lt_nil _)
      | cons b bs =>
          rw [List.map_cons, List.map_cons, List.cons_lt_cons_iff, List.cons_lt_cons_iff, ih,
            UInt8.lt_iff_toNat_lt, UInt8.toNat_inj]

/-- The order of keys is that of descriptors. -/
theorem before_iff {a b : Descriptor} : a.before b = true ↔ a.Precedes b := by
  rw [before, decide_eq_true_iff]
  constructor
  · intro h
    cases a <;> cases b <;>
      simp only [key, List.cons_lt_cons_iff, Nat.lt_irrefl, false_or, true_and] at h
    · exact .symbols (Utf8.encode_lt_encode_iff.mpr h)
    · exact .symbolFingerprint _ _
    · exact .symbolCode _ _
    · omega
    · exact .fingerprints (map_toNat_lt_iff.mp h)
    · exact .fingerprintCode _ _
    · omega
    · omega
    · exact .codes (by simpa [UInt64.lt_iff_toNat_lt] using h)
  · intro h
    cases h with
    | symbols h => exact List.cons_lt_cons_iff.mpr (.inr ⟨rfl, Utf8.encode_lt_encode_iff.mp h⟩)
    | fingerprints h => exact List.cons_lt_cons_iff.mpr (.inr ⟨rfl, map_toNat_lt_iff.mpr h⟩)
    | codes h =>
        refine List.cons_lt_cons_iff.mpr (.inr ⟨rfl, List.cons_lt_cons_iff.mpr (.inl ?_)⟩)
        exact UInt64.lt_iff_toNat_lt.mp h
    | _ => exact List.cons_lt_cons_iff.mpr (.inl (by decide))

end Descriptor

end AmqpEnvelope
