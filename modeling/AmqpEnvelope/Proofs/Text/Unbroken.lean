import AmqpEnvelope.Outline

/-!
# Texts of a single line

Which texts hold no line break (`Text.Unbroken`): numbers in every base, hexadecimal
spellings, and whatever stands between quotation marks, since a line break is escaped
there.  Lines without breaks are what a text splits into that is made of them
(`Text.splitOn_intercalate_iff`).
-/

namespace AmqpEnvelope

namespace Text

/-- A text of a single line. -/
def Unbroken (text : String) : Prop := '\n' ∉ text.toList

section

variable {a b : String} {characters : List Char}

@[simp] theorem unbroken_append : Unbroken (a ++ b) ↔ Unbroken a ∧ Unbroken b := by
  rw [Unbroken, String.toList_append, List.mem_append, not_or]
  exact Iff.rfl

@[simp] theorem unbroken_ofList : Unbroken (String.ofList characters) ↔ '\n' ∉ characters := by
  rw [Unbroken, String.toList_ofList]

instance (text : String) : Decidable (Unbroken text) :=
  inferInstanceAs (Decidable ('\n' ∉ text.toList))

end

/-! ## Numbers -/

theorem newline_ne_digitChar (n : Nat) : '\n' ≠ Nat.digitChar n := by
  by_cases hn : n < 16
  · have hdigit : ∀ digit : Fin 16, '\n' ≠ Nat.digitChar digit := by decide
    exact hdigit ⟨n, hn⟩
  · -- There are no digits past the sixteenth.
    rw [Nat.digitChar_eq_star.mpr (Nat.le_of_not_lt hn)]
    decide

theorem newline_not_mem_toDigits {base : Nat} (hbase : 1 < base) (n : Nat) :
    '\n' ∉ Nat.toDigits base n := by
  induction n using Nat.strongRecOn with
  | ind n ih =>
      rw [Nat.toDigits_eq_if hbase]
      by_cases hlt : n < base
      · rw [if_pos hlt, List.mem_singleton]
        exact newline_ne_digitChar n
      · have hsmaller : n / base < n := Nat.div_lt_self (by omega) hbase
        rw [if_neg hlt, List.mem_append, List.mem_singleton, not_or]
        exact ⟨ih _ hsmaller, newline_ne_digitChar _⟩

@[simp] theorem unbroken_nat (n : Nat) : Unbroken (toString n) := by
  rw [Nat.toString_eq_ofList_toDigits, unbroken_ofList]
  exact newline_not_mem_toDigits (by decide) n

@[simp] theorem unbroken_int (n : Int) : Unbroken (toString n) := by
  cases n with
  | ofNat n => exact unbroken_nat n
  | negSucc n =>
      change Unbroken ("-" ++ toString (n + 1))
      rw [unbroken_append]
      exact ⟨by decide, unbroken_nat _⟩

theorem newline_not_mem_replicate {c : Char} (hc : '\n' ≠ c) (n : Nat) :
    '\n' ∉ List.replicate n c := fun h => hc (List.eq_of_mem_replicate h)

@[simp] theorem unbroken_padded (width value : Nat) : Unbroken (Hex.padded width value) := by
  rw [Hex.padded, unbroken_ofList, List.mem_append, not_or]
  exact ⟨newline_not_mem_replicate (by decide) _, newline_not_mem_toDigits (by decide) value⟩

@[simp] theorem unbroken_number (width value : Nat) : Unbroken (Hex.number width value) := by
  rw [Hex.number, unbroken_append]
  exact ⟨by decide, unbroken_padded width value⟩

theorem newline_not_mem_digits (width value : Nat) : '\n' ∉ Hex.digits width value := by
  induction width generalizing value with
  | zero => exact List.not_mem_nil
  | succ width ih =>
      rw [Hex.digits, List.mem_append, List.mem_singleton, not_or]
      exact ⟨ih _, newline_ne_digitChar _⟩

@[simp] theorem unbroken_encode (bytes : Bytes) : Unbroken (Hex.encode bytes) := by
  rw [Hex.encode, unbroken_ofList, List.mem_flatMap]
  rintro ⟨byte, -, hmem⟩
  exact newline_not_mem_digits 2 _ hmem

theorem unbroken_positional (d : Decimal.Number) : Unbroken d.positional := by
  have hdigits := newline_not_mem_toDigits (by decide : 1 < 10) d.coefficient
  have hzeros := newline_not_mem_replicate (by decide : '\n' ≠ '0')
  unfold Decimal.Number.positional
  dsimp only
  split
  · rw [unbroken_ofList, List.mem_append, not_or]
    exact ⟨hdigits, hzeros _⟩
  · rw [unbroken_ofList, List.mem_append, List.mem_cons, not_or, not_or]
    refine ⟨fun h => ?_, by decide, fun h => ?_⟩
    · have h := List.mem_of_mem_take h
      rw [List.mem_append] at h
      exact h.elim (hzeros _) hdigits
    · have h := List.mem_of_mem_drop h
      rw [List.mem_append] at h
      exact h.elim (hzeros _) hdigits

@[simp] theorem unbroken_float (format : Decimal.BinaryFormat) (bits : Nat) :
    Unbroken (format.text bits) := by
  have hsigned : ∀ (negative : Bool) {body : String}, Unbroken body →
      Unbroken (if negative then "-" ++ body else body) := by
    intro negative body hbody
    cases negative with
    | false => exact hbody
    | true => exact unbroken_append.mpr ⟨by decide, hbody⟩
  unfold Decimal.BinaryFormat.text
  dsimp only
  split
  · decide
  · exact hsigned _ (by decide)
  · exact hsigned _ (by decide)
  · exact hsigned _ (unbroken_positional _)

/-! ## Quoted texts -/

/-- A line break is escaped. -/
theorem newline_not_mem_escape (mark c : Char) :
    '\n' ∉ escape mark c := by
  have hdigits := newline_not_mem_toDigits (by decide : 1 < 16) c.toNat
  by_cases hc : '\n' = c
  · simp [← hc, escape]
  · -- Everything else is kept, or spelled with a letter or with hexadecimal digits.
    unfold escape
    repeat' split
    all_goals simp [hc, hdigits]

@[simp] theorem unbroken_quote (text : String) : Unbroken (quote text) := by
  rw [quote, unbroken_ofList]
  simp [newline_not_mem_escape]

@[simp] theorem unbroken_quoteChar (c : Char) : Unbroken (quoteChar c) := by
  rw [quoteChar, unbroken_ofList]
  simp [newline_not_mem_escape]

/-! ## Splitting -/

/-- What a list is split into does not hold what it is split at. -/
theorem not_mem_of_mem_splitOn {a : Char} {characters piece : List Char}
    (h : piece ∈ characters.splitOn a) : a ∉ piece := by
  induction characters generalizing piece with
  | nil =>
      rw [List.splitOn_nil, List.mem_singleton] at h
      rw [h]
      exact List.not_mem_nil
  | cons c rest ih =>
      rw [List.splitOn_cons_eq_if_modifyHead] at h
      by_cases hc : c = a
      · rw [if_pos (beq_iff_eq.mpr hc), List.mem_cons] at h
        rcases h with rfl | h
        · exact List.not_mem_nil
        · exact ih h
      · rw [if_neg (mt beq_iff_eq.mp hc)] at h
        obtain ⟨first, others, hsplit⟩ := List.exists_cons_of_ne_nil (List.splitOn_ne_nil a rest)
        rw [hsplit] at h ih
        rcases List.mem_cons.mp h with rfl | h
        · rw [List.mem_cons, not_or]
          exact ⟨fun heq => hc heq.symm, ih List.mem_cons_self⟩
        · exact ih (List.mem_cons_of_mem _ h)

/-- A text that is made of lines splits into them unless one of them is broken. -/
theorem splitOn_intercalate_iff {lines : List String} (hlines : lines ≠ []) :
    ("\n".intercalate lines).toList.splitOn '\n' = lines.map String.toList ↔
      ∀ line ∈ lines, Unbroken line := by
  have hcharacters : ("\n".intercalate lines).toList = ['\n'].intercalate (lines.map String.toList) :=
    String.toList_intercalate
  constructor
  · intro hsplit line hline
    have hpiece : line.toList ∈ ("\n".intercalate lines).toList.splitOn '\n' :=
      hsplit ▸ List.mem_map_of_mem hline
    exact not_mem_of_mem_splitOn hpiece
  · intro hunbroken
    rw [hcharacters]
    refine List.splitOn_intercalate '\n' ?_ (mt List.map_eq_nil_iff.mp hlines)
    rw [List.forall_mem_map]
    exact hunbroken

end Text

end AmqpEnvelope
