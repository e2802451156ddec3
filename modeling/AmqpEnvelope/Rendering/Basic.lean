import AmqpEnvelope.Text.Hex

/-!
# Renderings

A rendering shows a value as plain data: flags, numbers, text, lists and named entries.  The
type of the value is gone, so values of different types may have one rendering.

* `Rendering` is the type of these trees.
* `Rendering.same_iff` says that `Rendering.same` decides their equality.
-/

namespace AmqpEnvelope

/-- A value as plain data. -/
inductive Rendering where
  | null
  | flag (value : Bool)
  /-- A number of at most 32 bits, a count or a code point. -/
  | number (value : Int)
  | text (value : String)
  | list (items : List Rendering)
  /-- Named parts, in the order that the type gives them. -/
  | parts (entries : List (String × Rendering))

namespace Rendering

/-- The outcome of an action that gives no value. -/
def done : Rendering := .text "ok"

/-- A natural number. -/
def natural (value : Nat) : Rendering := .number value

/-- A number of more than 32 bits, which is shown in decimal digits. -/
def wide (value : Int) : Rendering := .text (toString value)

/-- Bytes in hexadecimal digits. -/
def bytes (value : Bytes) : Rendering := .text (Hex.encode value)

/-- A value that may be absent. -/
def orNull {α : Type} (render : α → Rendering) : Option α → Rendering
  | some value => render value
  | none => .null

/-! ## Equality -/

mutual

/-- The renderings are equal. -/
def same : Rendering → Rendering → Bool
  | .null, .null => true
  | .flag a, .flag b => a == b
  | .number a, .number b => a == b
  | .text a, .text b => a == b
  | .list a, .list b => sameItems a b
  | .parts a, .parts b => sameParts a b
  | _, _ => false
termination_by structural rendering => rendering

/-- The lists are equal item by item. -/
def sameItems : List Rendering → List Rendering → Bool
  | [], [] => true
  | a :: as, b :: bs => a.same b && sameItems as bs
  | _, _ => false
termination_by structural items => items

/-- The lists have the same names and equal values, part by part. -/
def sameParts : List (String × Rendering) → List (String × Rendering) → Bool
  | [], [] => true
  | a :: as, b :: bs => samePart a b && sameParts as bs
  | _, _ => false
termination_by structural entries => entries

/-- The parts have the same name and equal values. -/
def samePart : String × Rendering → String × Rendering → Bool
  | (name, a), (name', b) => name == name' && a.same b
termination_by structural entry => entry

end

mutual

/-- Renderings are equal exactly when `same` says so. -/
theorem same_iff : (a b : Rendering) → (a.same b = true ↔ a = b)
  | .null, b => by cases b <;> simp [same]
  | .flag _, b => by cases b <;> simp [same]
  | .number _, b => by cases b <;> simp [same]
  | .text _, b => by cases b <;> simp [same]
  | .list items, b => by cases b <;> simp [same, sameItems_iff items]
  | .parts entries, b => by cases b <;> simp [same, sameParts_iff entries]

theorem sameItems_iff : (as bs : List Rendering) → (sameItems as bs = true ↔ as = bs)
  | [], bs => by cases bs <;> simp [sameItems]
  | a :: as, bs => by cases bs <;> simp [sameItems, same_iff a, sameItems_iff as]

theorem sameParts_iff :
    (as bs : List (String × Rendering)) → (sameParts as bs = true ↔ as = bs)
  | [], bs => by cases bs <;> simp [sameParts]
  | a :: as, bs => by cases bs <;> simp [sameParts, samePart_iff a, sameParts_iff as]

theorem samePart_iff : (a b : String × Rendering) → (samePart a b = true ↔ a = b)
  | (_, a), (_, b) => by simp [samePart, same_iff a]

end

instance : DecidableEq Rendering := fun a b => decidable_of_iff _ (same_iff a b)

end Rendering

end AmqpEnvelope
