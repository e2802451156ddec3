import AmqpEnvelope.Settings.Entry
import AmqpEnvelope.Toml.Record

/-!
# Readers of documents

The settings are read through any `DocumentReader`.  What is relied on is that the reader keeps to
the forms of values (`DocumentReader.KeepsTo`): it finds the fields of a record in a table, under
their names, it takes nothing but integers for counts and nothing but booleans for switches, and a
text for a word if it is one.  Nothing is assumed of arrays, dates and times that stand where a
record is expected, nor of tables that stand where a word is expected: what the reader makes of
them is what they mean.

The reader of TOML documents keeps to the forms of its values (`Toml.documents_keepsTo`).
-/

namespace AmqpEnvelope

/-! ## Forms of values -/

/-- What a value of a document is, as far as settings are concerned. -/
inductive Toml.Form (V : Type) where
  | string (text : String)
  | integer (value : Int)
  | boolean (value : Bool)
  | float
  /-- A date, a time or both. -/
  | moment
  | array
  | table (entries : List (String × V))

namespace Toml.Form

variable {V : Type}

/-- A single value, which is not made of others. -/
def IsSingle : Form V → Prop
  | string _ | integer _ | boolean _ | float => True
  | moment | array | table _ => False

/-- A text or a table, one of which a word may be. -/
def MayName : Form V → Prop
  | string _ | table _ => True
  | integer _ | boolean _ | float | moment | array => False

end Toml.Form

namespace DocumentReader

variable {reader : DocumentReader}

/-- **What is relied on**: the reader goes by the forms that the values of its documents have. -/
structure KeepsTo (reader : DocumentReader) (form : reader.Value → Toml.Form reader.Value) :
    Prop where
  /-- A document is a table. -/
  parsed : ∀ {source : String} {root : reader.Value}, reader.parse? source = some root →
    ∃ entries, form root = .table entries
  /-- A table is a record.  Its fields go by their names, those that it does not have are missing,
  and others are ignored. -/
  record_of_table : ∀ (fields : List String) {value : reader.Value}
    {entries : List (String × reader.Value)}, form value = .table entries →
      ∃ part, reader.record? fields value = some part ∧
        ∀ name ∈ fields, part name = entries.lookup name
  /-- A single value is no record. -/
  record_of_single : ∀ (fields : List String) {value : reader.Value}, (form value).IsSingle →
    reader.record? fields value = none
  /-- A count is an integer that is not negative. -/
  count_iff : ∀ {value : reader.Value} {count : Nat},
    reader.count? value = some count ↔ form value = .integer count
  /-- A switch is a boolean. -/
  flag_iff : ∀ {value : reader.Value} {flag : Bool},
    reader.flag? value = some flag ↔ form value = .boolean flag
  /-- A text is a word if it is one of those expected. -/
  word_of_string : ∀ {words : List String} {value : reader.Value} {text : String},
    form value = .string text → reader.word? words value = if text ∈ words then some text else none
  /-- What is neither a text nor a table is no word. -/
  word_of_other : ∀ {words : List String} {value : reader.Value}, ¬ (form value).MayName →
    reader.word? words value = none

/-! ## Records -/

variable {form : reader.Value → Toml.Form reader.Value} {fields : List String} {name : String}
  {record value : reader.Value}

/-- A value is a record with the given fields: a table, or what the reader takes for one without
its being a single value. -/
inductive IsRecord (form : reader.Value → Toml.Form reader.Value) (fields : List String)
    (record : reader.Value) : Prop
  | table {entries : List (String × reader.Value)} (hform : form record = .table entries)
  | other {part : String → Option reader.Value}
      (hform : form record = .array ∨ form record = .moment)
      (hread : reader.record? fields record = some part)

/-- A value stands in a record under the name of a field. -/
inductive Holds (form : reader.Value → Toml.Form reader.Value) (fields : List String)
    (name : String) (record value : reader.Value) : Prop
  | table {entries : List (String × reader.Value)} (hform : form record = .table entries)
      (hentry : entries.lookup name = some value)
  | other {part : String → Option reader.Value}
      (hform : form record = .array ∨ form record = .moment)
      (hread : reader.record? fields record = some part) (hpart : part name = some value)

variable (hreader : reader.KeepsTo form)
include hreader

theorem KeepsTo.isRecord_iff :
    IsRecord form fields record ↔ ∃ part, reader.record? fields record = some part := by
  constructor
  · rintro (⟨hform⟩ | ⟨-, hread⟩)
    · obtain ⟨part, hread, -⟩ := hreader.record_of_table fields hform
      exact ⟨part, hread⟩
    · exact ⟨_, hread⟩
  · rintro ⟨part, hread⟩
    cases hform : form record with
    | table entries => exact .table hform
    | array => exact .other (.inl hform) hread
    | moment => exact .other (.inr hform) hread
    | string _ | integer _ | boolean _ | float =>
        rw [hreader.record_of_single fields (by rw [hform]; trivial)] at hread
        cases hread

theorem KeepsTo.holds_iff {part : String → Option reader.Value} (hname : name ∈ fields)
    (hread : reader.record? fields record = some part) :
    Holds form fields name record value ↔ part name = some value := by
  constructor
  · rintro (⟨hform, hentry⟩ | ⟨-, hread', hpart⟩)
    · obtain ⟨part', hread', hlookup⟩ := hreader.record_of_table fields hform
      obtain rfl := Option.some.inj (hread.symm.trans hread')
      rw [hlookup name hname, hentry]
    · obtain rfl := Option.some.inj (hread.symm.trans hread')
      exact hpart
  · intro hpart
    obtain ⟨hform⟩ | ⟨hform, -⟩ := hreader.isRecord_iff.mpr ⟨part, hread⟩
    · obtain ⟨part', hread', hlookup⟩ := hreader.record_of_table fields hform
      obtain rfl := Option.some.inj (hread.symm.trans hread')
      exact .table hform ((hlookup name hname).symm.trans hpart)
    · exact .other hform hread hpart

/-- What holds a value is a record. -/
theorem KeepsTo.exists_record_of_holds (h : Holds form fields name record value) :
    ∃ part, reader.record? fields record = some part := by
  refine hreader.isRecord_iff.mp ?_
  obtain ⟨hform, -⟩ | ⟨hform, hread, -⟩ := h
  · exact .table hform
  · exact .other hform hread

end DocumentReader

/-! ## TOML -/

namespace Toml

/-- The form of a value.  Tables under headers in double brackets are an array. -/
def Value.form : Value → Form Value
  | .string text => .string text
  | .integer value => .integer value
  | .boolean value => .boolean value
  | .float => .float
  | .moment => .moment
  | .array _ | .tables _ _ => .array
  | .table _ entries => .table entries

theorem Value.count?_eq_some_iff {value : Value} {count : Nat} :
    value.count? = some count ↔ value.form = .integer count := by
  cases value with
  | integer n =>
      simp only [count?, form, Form.integer.injEq]
      split
      · rw [Option.some.injEq]
        omega
      · simp only [reduceCtorEq, false_iff]
        omega
  | _ => simp only [count?, form, reduceCtorEq]

theorem Value.flag?_eq_some_iff {value : Value} {flag : Bool} :
    value.flag? = some flag ↔ value.form = .boolean flag := by
  cases value with
  | boolean b => simp only [flag?, form, Option.some.injEq, Form.boolean.injEq]
  | _ => simp only [flag?, form, reduceCtorEq]

theorem documents_keepsTo : documents.KeepsTo Value.form where
  parsed := by
    intro source root h
    obtain ⟨entries, -, rfl⟩ := Option.map_eq_some_iff.mp h
    exact ⟨entries, rfl⟩
  record_of_table := by
    intro fields value entries h
    cases value with
    | table origin found =>
        cases h
        exact ⟨_, rfl, fun _ _ => rfl⟩
    | _ => cases h
  record_of_single := by
    intro fields value h
    cases value with
    | string _ | integer _ | boolean _ | float => rfl
    | _ => exact h.elim
  count_iff := Value.count?_eq_some_iff
  flag_iff := Value.flag?_eq_some_iff
  word_of_string := by
    intro words value text h
    cases value with
    | string found =>
        obtain rfl := Form.string.inj h
        rfl
    | _ => cases h
  word_of_other := by
    intro words value h
    cases value with
    | string _ | table _ _ => exact absurd trivial h
    | _ => rfl

end Toml

end AmqpEnvelope
