import Mathlib.Data.List.Forall2
import Mathlib.Data.List.TakeWhile
import AmqpEnvelope.Text.Blank

/-!
# Texts with white space around them and in either case

What is left of a text without the white space around it, and which texts become a given one when
their letters are made small, said without removing or replacing anything: a text is `Padded` with
white space, and it is `InEitherCase`.
-/

namespace AmqpEnvelope.Text

variable {text core : String}

/-! ## White space around a text -/

/-- A text is another one with white space around it. -/
def Padded (text core : String) : Prop :=
  ∃ before after : List Char, text.toList = before ++ core.toList ++ after ∧
    (∀ c ∈ before, isBlank c = true) ∧ ∀ c ∈ after, isBlank c = true

/-- No character of a text is white space. -/
def Solid (text : String) : Prop := ∀ c ∈ text.toList, isBlank c = false

theorem Padded.refl (text : String) : Padded text text :=
  ⟨[], [], by rw [List.nil_append, List.append_nil], nofun, nofun⟩

theorem Padded.trans {middle : String} (h : Padded text middle) (h' : Padded middle core) :
    Padded text core := by
  obtain ⟨before, after, htext, hbefore, hafter⟩ := h
  obtain ⟨before', after', hmiddle, hbefore', hafter'⟩ := h'
  refine ⟨before ++ before', after' ++ after, ?_, ?_, ?_⟩
  · rw [htext, hmiddle]
    simp only [List.append_assoc]
  · exact List.forall_mem_append.mpr ⟨hbefore, hbefore'⟩
  · exact List.forall_mem_append.mpr ⟨hafter', hafter⟩

/-- What trimming removes is white space. -/
theorem padded_trim (text : String) : Padded text (trim text) := by
  let late := (text.toList.dropWhile isBlank).reverse
  refine ⟨text.toList.takeWhile isBlank, (late.takeWhile isBlank).reverse, ?_, ?_, ?_⟩
  · have hlate : text.toList.dropWhile isBlank =
        (late.dropWhile isBlank).reverse ++ (late.takeWhile isBlank).reverse := by
      rw [← List.reverse_append, List.takeWhile_append_dropWhile, List.reverse_reverse]
    rw [trim, trimChars, String.toList_ofList, List.append_assoc, ← hlate,
      List.takeWhile_append_dropWhile]
  · exact fun c hc => List.mem_takeWhile_imp hc
  · exact fun c hc => List.mem_takeWhile_imp (List.mem_reverse.mp hc)

/-- Nothing is dropped in front of a character that is no white space. -/
private theorem dropWhile_of_solid {solid : List Char} (h : ∀ c ∈ solid, isBlank c = false)
    {before : List Char} (hbefore : ∀ c ∈ before, isBlank c = true) :
    (before ++ solid).dropWhile isBlank = solid := by
  rw [List.dropWhile_append_of_pos hbefore]
  cases solid with
  | nil => rfl
  | cons c rest => rw [List.dropWhile_cons_of_neg (by rw [h c List.mem_cons_self]; decide)]

/-- Trimming removes all the white space around a text that holds none itself. -/
theorem Padded.trim_eq (h : Padded text core) (hsolid : Solid core) : trim text = core := by
  obtain ⟨before, after, htext, hbefore, hafter⟩ := h
  have hback : ∀ c ∈ core.toList.reverse, isBlank c = false := fun c hc =>
    hsolid c (List.mem_reverse.mp hc)
  have hafterBack : ∀ c ∈ after.reverse, isBlank c = true := fun c hc =>
    hafter c (List.mem_reverse.mp hc)
  have hfront : (text.toList.dropWhile isBlank).reverse.dropWhile isBlank =
      core.toList.reverse := by
    rw [htext, List.append_assoc, List.dropWhile_append_of_pos hbefore]
    cases hcore : core.toList with
    | nil => 
        rw [List.nil_append, List.dropWhile_eq_nil_iff.mpr hafter]
        rfl
    | cons c rest =>
        have hc : ¬ isBlank c = true := by
          rw [hsolid c (by rw [hcore]; exact List.mem_cons_self)]
          decide
        rw [List.cons_append, List.dropWhile_cons_of_neg hc, ← List.cons_append, ← hcore,
          List.reverse_append, dropWhile_of_solid hback hafterBack]
  rw [trim, trimChars, hfront, List.reverse_reverse, String.ofList_toList]

theorem isBlank_of_isDigit {c : Char} (h : c.isDigit = true) : isBlank c = false := by
  have hrange : 48 ≤ c.toNat ∧ c.toNat ≤ 57 := by
    simp only [Char.isDigit, Bool.and_eq_true, decide_eq_true_eq, ge_iff_le,
      UInt32.le_iff_toNat_le] at h
    exact h
  simp only [isBlank, Bool.or_eq_false_iff, Bool.and_eq_false_iff, decide_eq_false_iff_not,
    beq_eq_false_iff_ne]
  omega

/-! ## Letters in either case -/

/-- A character is a given small letter, or the capital letter that goes with it. -/
def IsLetter (c letter : Char) : Prop := c = letter ∨ c.toNat + 32 = letter.toNat

/-- A text is a word in small letters, but for the case of its letters. -/
def InEitherCase (text word : String) : Prop := List.Forall₂ IsLetter text.toList word.toList

/-- A word is made of the letters `a` to `z`. -/
def SmallLetters (word : String) : Prop :=
  ∀ letter ∈ word.toList, 97 ≤ letter.toNat ∧ letter.toNat ≤ 122

private theorem toNat_toLower_of_capital {c : Char} (h : 65 ≤ c.toNat ∧ c.toNat ≤ 90) :
    c.toLower.toNat = c.toNat + 32 := by
  have hrange : c.val ≥ 'A'.val ∧ c.val ≤ 'Z'.val := by
    simp only [ge_iff_le, UInt32.le_iff_toNat_le]
    exact h
  have hstep : ('a'.val - 'A'.val).toNat = 32 := by decide
  have hle : c.val.toNat ≤ 90 := h.2
  unfold Char.toLower
  rw [dif_pos hrange]
  show (c.val + ('a'.val - 'A'.val)).toNat = c.val.toNat + 32
  rw [UInt32.toNat_add]
  omega

private theorem toLower_of_not_capital {c : Char} (h : ¬ (65 ≤ c.toNat ∧ c.toNat ≤ 90)) :
    c.toLower = c := by
  unfold Char.toLower
  refine dif_neg fun hrange => h ?_
  simp only [ge_iff_le, UInt32.le_iff_toNat_le] at hrange
  exact hrange

theorem toLower_eq_iff {c letter : Char} (hletter : 97 ≤ letter.toNat ∧ letter.toNat ≤ 122) :
    c.toLower = letter ↔ IsLetter c letter := by
  unfold IsLetter
  by_cases hcapital : 65 ≤ c.toNat ∧ c.toNat ≤ 90
  · rw [← Char.toNat_inj, ← Char.toNat_inj, toNat_toLower_of_capital hcapital]
    omega
  · rw [toLower_of_not_capital hcapital]
    constructor
    · exact .inl
    · rintro (h | h)
      · exact h
      · omega

/-- The texts that become a word when their letters are made small. -/
theorem asciiLower_eq_iff {word : String} (hword : SmallLetters word) :
    asciiLower text = word ↔ InEitherCase text word := by
  have hsame : asciiLower text = word ↔
      List.Forall₂ (fun c letter => c.toLower = letter) text.toList word.toList := by
    rw [asciiLower, ← String.toList_inj, String.toList_ofList, ← List.forall₂_eq_eq_eq,
      List.forall₂_map_left_iff]
  rw [hsame, InEitherCase, List.forall₂_iff_zip, List.forall₂_iff_zip]
  refine and_congr_right fun _ => forall₂_congr fun c letter => ?_
  refine imp_congr_right fun hpair => ?_
  exact toLower_eq_iff (hword letter (List.of_mem_zip hpair).2)

theorem isBlank_of_isLetter {c letter : Char} (hletter : 97 ≤ letter.toNat ∧ letter.toNat ≤ 122)
    (h : IsLetter c letter) : isBlank c = false := by
  have hrange : 65 ≤ c.toNat ∧ c.toNat ≤ 122 := by
    rcases h with rfl | h
    · omega
    · omega
  simp only [isBlank, Bool.or_eq_false_iff, Bool.and_eq_false_iff, decide_eq_false_iff_not,
    beq_eq_false_iff_ne]
  omega

theorem InEitherCase.solid {word : String} (h : InEitherCase text word)
    (hword : SmallLetters word) : Solid text := by
  intro c hc
  obtain ⟨i, hi, rfl⟩ := List.mem_iff_getElem.mp hc
  obtain ⟨hlength, hletters⟩ := List.forall₂_iff_get.mp h
  have hi' : i < word.toList.length := hlength ▸ hi
  exact isBlank_of_isLetter (hword _ (List.getElem_mem hi')) (hletters i hi hi')

end AmqpEnvelope.Text
