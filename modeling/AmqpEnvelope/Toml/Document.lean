import AmqpEnvelope.Toml.Scalar

/-!
# TOML documents

A document is a sequence of assignments, cut into blocks by headers.  It is read in two
steps: the text is cut into blocks, and the blocks are laid into the root table one after
the other.
-/

namespace AmqpEnvelope.Toml

open Reader

/-! ## Values -/

/-- An assignment whose value is read by the given reader. -/
def assignment (value : Reader Value) : Reader Assignment := do
  let (path, key) ← dottedKey
  char '='
  space
  return ⟨path, key, ← value⟩

/-- The elements of an array, each read by the given reader. -/
def arrayBody (value : Reader Value) : Reader (List Value) := do
  let elements ← maybe (separated1 ',' (filler *> value <* filler))
  if elements.isSome then
    let _ ← maybe (char ',')
  filler
  return elements.getD []

/-- The entries of a table in braces, whose values are read by the given reader. -/
def inlineTableBody (value : Reader Value) : Reader Entries := do
  let assignments ← maybe (separated1 ',' (assignment value <* space))
  space
  match Entries.assignAll [] (assignments.getD []) with
  | some entries => return entries
  | none => failure

/-- A value in which brackets and braces may be nested `room` deep. -/
def value : (room : Nat) → Reader Value
  | 0 => scalar
  | room + 1 =>
      (do char '['; return .array (← arrayBody (value room) <* char ']'))
        <|> (do char '\x7b'; return .table .inline (← inlineTableBody (value room) <* char '\x7d'))
        <|> scalar

/-! ## Blocks -/

/-- What a header opens. -/
inductive Heading where
  /-- The root table, which has no header. -/
  | root
  /-- The table at a path. -/
  | table (path : List String) (key : String)
  /-- A further table of those at a path. -/
  | element (path : List String) (key : String)

/-- A header with the assignments below it. -/
structure Block where
  heading : Heading
  assignments : List Assignment

/-- A header in brackets. -/
def heading : Reader Heading :=
  (do
    word "[["
    let (path, key) ← dottedKey
    word "]]"
    return .element path key)
    <|> (do
      char '['
      let (path, key) ← dottedKey
      char ']'
      return .table path key)

/-- Lines without an assignment or header. -/
def emptyLines : Reader Unit := do
  let _ ← many ((do let _ ← run1 isSpace) <|> newline <|> (comment *> (newline <|> done)))

/-- An assignment with the rest of its line. -/
def assignmentLine : Reader Assignment :=
  assignment (value (nestingBound - 1)) <* lineEnd <* emptyLines

/-- A header with the rest of its line, and what follows up to the next header. -/
def block : Reader Block := do
  let opened ← heading
  lineEnd
  emptyLines
  return ⟨opened, ← many assignmentLine⟩

/-- The blocks of a document. -/
def blocks : Reader (List Block) := do
  let _ ← maybe (char '\uFEFF')
  emptyLines
  let top ← many assignmentLine
  let others ← many block
  done
  return ⟨.root, top⟩ :: others

/-- Lay a block into the root table. -/
def Block.layInto (root : Entries) (b : Block) : Option Entries :=
  match b.heading with
  | .root => root.assignAll b.assignments
  | .table path key => root.openTable path key b.assignments
  | .element path key => root.openElement path key b.assignments

/-- The root table of a document, unless the text is no document. -/
def parse? (source : String) : Option Entries := do
  let (found, _) ← blocks source.toList
  found.foldlM Block.layInto []

end AmqpEnvelope.Toml
