import Mathlib.Data.Nat.Digits.Defs
import AmqpEnvelope.Proofs.Settings.Document
import AmqpEnvelope.Proofs.Text.Blank

/-!
# The values of an entry

What gives a value to an entry of the settings, apart from how it is read: the values of a
document that mean it (`Setting.Means`) and the texts of a variable that spell it
(`Setting.Spells`).  Both are found exactly if they are there: by any reader that keeps to the forms
of the values of its documents (`Setting.ofValue?_eq_some_iff`), and behind white space
(`Setting.ofText?_trim_eq_some_iff`).

The entries are places in the settings that do not overlap, and together they are all of
them.
-/

namespace AmqpEnvelope

/-! ## Places -/

theorem SettingGroup.name_mem_names (g : SettingGroup) : g.name ∈ names := by
  cases g <;> decide

namespace Setting

variable {s t : Setting} {settings : Settings}

theorem mem_all (s : Setting) : s ∈ all := by
  cases s <;> decide

theorem name_mem_fields (s : Setting) : s.name ∈ s.group.fields := by
  cases s <;> decide

@[simp] theorem get_set_self (value : s.Carrier) : s.get (s.set value settings) = value := by
  cases s <;> rfl

theorem get_set_of_ne (h : t ≠ s) (value : s.Carrier) :
    t.get (s.set value settings) = t.get settings := by
  cases s <;> cases t <;> first | rfl | exact absurd rfl h

end Setting

/-- Settings with the same entries are the same. -/
theorem Settings.eq_of_get {a b : Settings} (h : ∀ s : Setting, s.get a = s.get b) : a = b := by
  obtain ⟨⟨aTop, aNested⟩, ⟨aDepth, aLength⟩, ⟨aPreamble, aEnvelope⟩⟩ := a
  obtain ⟨⟨bTop, bNested⟩, ⟨bDepth, bLength⟩, ⟨bPreamble, bEnvelope⟩⟩ := b
  obtain rfl : aTop = bTop := h .topLevel
  obtain rfl : aNested = bNested := h .nested
  obtain rfl : aDepth = bDepth := h .maxDepth
  obtain rfl : aLength = bLength := h .maxCollectionLength
  obtain rfl : aPreamble = bPreamble := h .requirePreamble
  obtain rfl : aEnvelope = bEnvelope := h .unwrapEnvelope
  rfl

/-! ## Documents -/

theorem UnknownAction.ofWord?_eq_some_iff {word : String} {action : UnknownAction} :
    ofWord? word = some action ↔ word = action.word := by
  unfold ofWord?
  constructor
  · intro h
    have hfound := List.find?_some h
    exact (of_decide_eq_true hfound).symm
  · rintro rfl
    cases action <;> decide

theorem UnknownAction.word_mem_words (action : UnknownAction) : action.word ∈ words := by
  cases action <;> decide

theorem UnknownAction.smallLetters_word (action : UnknownAction) :
    Text.SmallLetters action.word := by
  have hall : (action.word.toList.all fun letter =>
      decide (97 ≤ letter.toNat ∧ letter.toNat ≤ 122)) = true := by
    cases action <;> decide
  exact fun letter hletter => of_decide_eq_true (List.all_eq_true.mp hall letter hletter)

namespace Setting

section

variable {reader : DocumentReader} (form : reader.Value → Toml.Form reader.Value)

/-- A value of a document means an action: it is the word for it, or a table that the reader takes
for that word. -/
def MeansAction (value : reader.Value) (action : UnknownAction) : Prop :=
  form value = .string action.word ∨
    (∃ entries, form value = .table entries) ∧
      reader.word? UnknownAction.words value = some action.word

/-- A value of a document means a value of an entry. -/
def Means : (s : Setting) → reader.Value → s.Carrier → Prop
  | maxDepth => fun value count => form value = .integer (count : Nat)
  | maxCollectionLength => fun value count => form value = .integer (count : Nat)
  | topLevel => MeansAction form
  | nested => MeansAction form
  | requirePreamble => fun value flag => form value = .boolean flag
  | unwrapEnvelope => fun value flag => form value = .boolean flag

variable {form} (hreader : reader.KeepsTo form) {value : reader.Value}
include hreader

theorem word?_eq_some_iff {action : UnknownAction} :
    (reader.word? UnknownAction.words value).bind UnknownAction.ofWord? = some action ↔
      MeansAction form value action := by
  have hword : (reader.word? UnknownAction.words value).bind UnknownAction.ofWord? = some action ↔
      reader.word? UnknownAction.words value = some action.word := by
    simp only [Option.bind_eq_some_iff, UnknownAction.ofWord?_eq_some_iff, exists_eq_right]
  rw [hword, MeansAction]
  cases hform : form value with
  | string text =>
      rw [hreader.word_of_string hform]
      have hmem := action.word_mem_words
      simp only [Option.ite_none_right_eq_some, Option.some.injEq, Toml.Form.string.injEq,
        reduceCtorEq, exists_false, false_and, or_false]
      constructor
      · exact fun h => h.2
      · rintro rfl
        exact ⟨hmem, rfl⟩
  | table entries =>
      simp only [reduceCtorEq, Toml.Form.table.injEq, exists_eq', true_and, false_or]
  | integer _ | boolean _ | float | moment | array =>
      rw [hreader.word_of_other (by rw [hform]; exact id)]
      simp only [reduceCtorEq, exists_false, false_and, or_false]

/-- The reader of documents finds what is meant. -/
theorem ofValue?_eq_some_iff {s : Setting} {x : s.Carrier} :
    s.ofValue? reader value = some x ↔ s.Means form value x := by
  cases s with
  | maxDepth => exact hreader.count_iff
  | maxCollectionLength => exact hreader.count_iff
  | topLevel => exact word?_eq_some_iff hreader
  | nested => exact word?_eq_some_iff hreader
  | requirePreamble => exact hreader.flag_iff
  | unwrapEnvelope => exact hreader.flag_iff

end

/-! ## Variables -/

/-- The number that decimal digits stand for. -/
def decimal (digits : List Char) : Nat :=
  Nat.ofDigits 10 (digits.reverse.map fun c => c.toNat - '0'.toNat)

/-- A text spells a count of up to 64 bits: it is made of digits, perhaps behind a plus. -/
def SpellsCount (text : String) (count : Nat) : Prop :=
  ∃ digits : List Char, (text.toList = digits ∨ text.toList = '+' :: digits) ∧ digits ≠ [] ∧
    (∀ c ∈ digits, c.isDigit = true) ∧ decimal digits = count ∧ count < UInt64.size

/-- It spells an action, in letters of either case. -/
def SpellsAction (text : String) (action : UnknownAction) : Prop :=
  Text.InEitherCase text action.word

/-- It spells a flag. -/
def SpellsFlag (text : String) (flag : Bool) : Prop := text = if flag then "true" else "false"

/-- A text spells a value of an entry. -/
def Spells : (s : Setting) → String → s.Carrier → Prop
  | maxDepth => SpellsCount
  | maxCollectionLength => SpellsCount
  | topLevel => SpellsAction
  | nested => SpellsAction
  | requirePreamble => SpellsFlag
  | unwrapEnvelope => SpellsFlag

theorem foldl_eq_decimal (digits : List Char) :
    digits.foldl (fun value c => value * 10 + (c.toNat - '0'.toNat)) 0 = decimal digits := by
  rw [decimal, Nat.ofDigits_eq_foldr, List.foldr_map, List.foldr_reverse]
  refine congrArg (fun next => digits.foldl next 0) ?_
  funext value c
  rw [Nat.cast_id, Nat.mul_comm, Nat.add_comm]

/-- What stands behind a plus, if there is one. -/
def unsigned : List Char → List Char
  | '+' :: rest => rest
  | cs => cs

theorem unsigned_of_digits {digits : List Char} (h : ∀ c ∈ digits, c.isDigit = true) :
    unsigned digits = digits := by
  unfold unsigned
  split
  next rest => exact absurd (h '+' List.mem_cons_self) (by decide)
  next => rfl

theorem eq_or_eq_cons_of_unsigned (cs : List Char) :
    cs = unsigned cs ∨ cs = '+' :: unsigned cs := by
  unfold unsigned
  split
  next => exact .inr rfl
  next => exact .inl rfl

/-- The digits of a count, if there are any and nothing else, and if they are not too many. -/
def countOfDigits? (digits : List Char) : Option Nat :=
  if digits.isEmpty || !digits.all Char.isDigit then none
  else if decimal digits < UInt64.size then some (decimal digits) else none

theorem countOfDigits?_eq_some_iff {digits : List Char} {count : Nat} :
    countOfDigits? digits = some count ↔ digits ≠ [] ∧ (∀ c ∈ digits, c.isDigit = true) ∧
      decimal digits = count ∧ count < UInt64.size := by
  unfold countOfDigits?
  rw [← List.all_eq_true]
  cases digits with
  | nil => simp
  | cons c rest =>
      cases List.all (c :: rest) Char.isDigit with
      | false => simp
      | true =>
          simp only [List.isEmpty_cons, Bool.not_true, Bool.or_self, Bool.false_eq_true, if_false]
          split
          next hsize =>
            rw [Option.some.injEq]
            constructor
            · rintro rfl
              exact ⟨List.cons_ne_nil _ _, trivial, rfl, hsize⟩
            · exact fun h => h.2.2.1
          next hsize =>
            simp only [reduceCtorEq, false_iff]
            rintro ⟨-, -, rfl, h⟩
            exact hsize h

theorem countOfText?_eq (text : String) :
    countOfText? text = countOfDigits? (unsigned text.toList) := by
  have hread : countOfText? text =
      if (unsigned text.toList).isEmpty || !(unsigned text.toList).all Char.isDigit then none
      else
        let count := (unsigned text.toList).foldl
          (fun value c => value * 10 + (c.toNat - '0'.toNat)) 0
        if count < UInt64.size then some count else none := rfl
  rw [hread, foldl_eq_decimal, countOfDigits?]

theorem countOfText?_eq_some_iff {text : String} {count : Nat} :
    countOfText? text = some count ↔ SpellsCount text count := by
  rw [countOfText?_eq, countOfDigits?_eq_some_iff]
  constructor
  · intro h
    exact ⟨_, eq_or_eq_cons_of_unsigned text.toList, h⟩
  · rintro ⟨digits, htext, h⟩
    have hunsigned : unsigned text.toList = digits := by
      rcases htext with htext | htext
      · rw [htext, unsigned_of_digits h.2.1]
      · rw [htext, unsigned]
    rw [hunsigned]
    exact h

theorem parse_eq_some_iff {text : String} {action : UnknownAction} :
    (UnknownAction.parse text).toOption = some action ↔ SpellsAction (Text.trim text) action := by
  rw [SpellsAction, ← Text.asciiLower_eq_iff action.smallLetters_word,
    ← UnknownAction.ofWord?_eq_some_iff]
  unfold UnknownAction.parse
  cases hword : UnknownAction.ofWord? (Text.asciiLower (Text.trim text)) with
  | none => simp only [hword, Except.toOption, reduceCtorEq]
  | some found => simp only [hword, Except.toOption]

theorem flagOfText?_eq_some_iff {text : String} {flag : Bool} :
    flagOfText? text = some flag ↔ SpellsFlag text flag := by
  unfold flagOfText? SpellsFlag
  split
  next htrue => cases flag <;> simp [htrue]
  next htrue =>
    split
    next hfalse => cases flag <;> simp [hfalse]
    next hfalse => cases flag <;> simp [htrue, hfalse]

theorem SpellsCount.solid {text : String} {count : Nat} (h : SpellsCount text count) :
    Text.Solid text := by
  obtain ⟨digits, htext, -, hdigits, -⟩ := h
  have hsolid : ∀ c ∈ digits, Text.isBlank c = false := fun c hc =>
    Text.isBlank_of_isDigit (hdigits c hc)
  unfold Text.Solid
  rcases htext with htext | htext
  · rw [htext]
    exact hsolid
  · rw [htext]
    exact List.forall_mem_cons.mpr ⟨by decide, hsolid⟩

theorem SpellsFlag.solid {text : String} {flag : Bool} (h : SpellsFlag text flag) :
    Text.Solid text := by
  have hall : ((if flag then "true" else "false").toList.all fun c => !Text.isBlank c) = true := by
    cases flag <;> decide
  rw [h]
  intro c hc
  exact (Bool.not_eq_true' _).mp (List.all_eq_true.mp hall c hc)

/-- What spells a value holds no white space. -/
theorem Spells.solid {s : Setting} {text : String} {x : s.Carrier} (h : s.Spells text x) :
    Text.Solid text := by
  cases s with
  | maxDepth => exact SpellsCount.solid h
  | maxCollectionLength => exact SpellsCount.solid h
  | topLevel => exact Text.InEitherCase.solid h (UnknownAction.smallLetters_word x)
  | nested => exact Text.InEitherCase.solid h (UnknownAction.smallLetters_word x)
  | requirePreamble => exact SpellsFlag.solid h
  | unwrapEnvelope => exact SpellsFlag.solid h

theorem ofText?_of_spells {s : Setting} {text : String} {x : s.Carrier} (h : s.Spells text x) :
    s.ofText? text = some x := by
  have haction : ∀ action : UnknownAction, SpellsAction text action →
      (UnknownAction.parse text).toOption = some action := by
    intro action haction
    have hsolid := Text.InEitherCase.solid haction action.smallLetters_word
    rw [parse_eq_some_iff, (Text.Padded.refl text).trim_eq hsolid]
    exact haction
  cases s with
  | maxDepth => exact countOfText?_eq_some_iff.mpr h
  | maxCollectionLength => exact countOfText?_eq_some_iff.mpr h
  | topLevel => exact haction x h
  | nested => exact haction x h
  | requirePreamble => exact flagOfText?_eq_some_iff.mpr h
  | unwrapEnvelope => exact flagOfText?_eq_some_iff.mpr h

/-- An action is also found behind white space. -/
theorem exists_spells_of_ofText? {s : Setting} {text : String} {x : s.Carrier}
    (h : s.ofText? text = some x) : ∃ core, Text.Padded text core ∧ s.Spells core x := by
  cases s with
  | maxDepth => exact ⟨text, .refl text, countOfText?_eq_some_iff.mp h⟩
  | maxCollectionLength => exact ⟨text, .refl text, countOfText?_eq_some_iff.mp h⟩
  | topLevel => exact ⟨Text.trim text, Text.padded_trim text, parse_eq_some_iff.mp h⟩
  | nested => exact ⟨Text.trim text, Text.padded_trim text, parse_eq_some_iff.mp h⟩
  | requirePreamble => exact ⟨text, .refl text, flagOfText?_eq_some_iff.mp h⟩
  | unwrapEnvelope => exact ⟨text, .refl text, flagOfText?_eq_some_iff.mp h⟩

/-- The reader for variables finds what is spelled, behind white space or not. -/
theorem ofText?_trim_eq_some_iff {s : Setting} {text : String} {x : s.Carrier} :
    s.ofText? (Text.trim text) = some x ↔ ∃ core, Text.Padded text core ∧ s.Spells core x := by
  constructor
  · intro h
    obtain ⟨core, hpadded, hspells⟩ := exists_spells_of_ofText? h
    exact ⟨core, (Text.padded_trim text).trans hpadded, hspells⟩
  · rintro ⟨core, hpadded, hspells⟩
    rw [hpadded.trim_eq hspells.solid]
    exact ofText?_of_spells hspells

end Setting

end AmqpEnvelope
