import AmqpEnvelope.Proofs.Outline.Chart

/-!
# Outlines as they are printed

The lines of an outline show the values of the stream in preorder, one line for each, with
its place in front and indented by its depth (`Outline.lines_show`).

Whether a reader of the text finds these lines again is another matter.  Strings and
characters are quoted, so a line break in one of them is escaped, but symbols are printed as
they are.  The text splits into its lines exactly if no symbol holds a line break.
-/

namespace AmqpEnvelope

open Written

/-! ## Lines -/

/-- The line starts with the place of a value, which stands at the right end of a column of
six, and two blanks; the rest is indented by twice the depth. -/
def Entry.ShownBy (entry : Entry) (line : String) : Prop :=
  ∃ first label, first ≠ ' ' ∧ line.toList =
    List.replicate (6 - (Nat.toDigits 10 entry.offset).length) ' ' ++
      Nat.toDigits 10 entry.offset ++ [' ', ' '] ++ List.replicate (2 * entry.depth) ' ' ++
        first :: label

/-- The line shows the entry, and it is broken by nothing but the symbol of the entry. -/
structure Entry.PrintedAs (entry : Entry) (line : String) : Prop where
  shown : entry.ShownBy line
  unbroken_iff : Text.Unbroken line ↔ ∀ text ∈ entry.symbol?, Text.Unbroken text

namespace Outline

theorem printedAs_line {depth offset : Nat} {symbol? : Option String} {label : String}
    (h : Suits symbol? label) :
    Entry.PrintedAs ⟨depth, offset, symbol?⟩ (line depth offset label) where
  shown := by
    cases hlabel : label.toList with
    | nil =>
        have hflush := h.flush
        rw [hlabel] at hflush
        cases hflush
    | cons first rest =>
        have hflush := h.flush
        rw [hlabel] at hflush
        refine ⟨first, rest, bne_iff_ne.mp hflush, ?_⟩
        rw [line, Text.padLeft, Nat.toString_eq_ofList_toDigits]
        simp [hlabel]
  unbroken_iff := by
    have hblanks : ∀ n, Text.Unbroken (String.ofList (List.replicate n ' ')) := fun n =>
      Text.unbroken_ofList.mpr (Text.newline_not_mem_replicate (by decide) n)
    have hplace : Text.Unbroken (Text.padLeft 6 (toString offset)) :=
      Text.unbroken_append.mpr ⟨hblanks _, Text.unbroken_nat offset⟩
    rw [line, Text.unbroken_append, Text.unbroken_append, Text.unbroken_append,
      and_iff_right ⟨⟨hplace, by decide⟩, hblanks _⟩]
    exact h.unbroken_iff

/-- The nodes of a row are printed as its entries, by induction on the nodes. -/
theorem exists_lines {cap offset : Nat} {row : List Bytes} {nodes : List Node}
    (h : Charted cap offset row nodes) (depth : Nat) (pile : List String) :
    ∃ entries lines, Entries cap depth offset row entries ∧
      addNodes depth nodes pile = lines.reverse ++ pile ∧
        List.Forall₂ Entry.PrintedAs entries lines := by
  induction h generalizing depth pile with
  | nil => exact ⟨[], [], .nil, rfl, .nil⟩
  | @cons offset value symbol? items row label children nodes hholds hlabel _ _ ihinside ihbehind =>
      -- What is inside is piled on the line of the value, and what comes behind on both.
      obtain ⟨inside, linesInside, hinside, hpile, hall⟩ :=
        ihinside (depth + 1) (line depth offset label :: pile)
      obtain ⟨behind, linesBehind, hbehind, hpile', hall'⟩ :=
        ihbehind depth (linesInside.reverse ++ line depth offset label :: pile)
      refine ⟨_, line depth offset label :: (linesInside ++ linesBehind),
        .cons hholds hinside hbehind, ?_, .cons (printedAs_line hlabel) (List.rel_append hall hall')⟩
      rw [addNodes, addNode, hpile, hpile']
      simp

/-- The line of a preamble stands where a value at the start of the stream would. -/
theorem printedAs_sectionLine (id : UInt8) :
    Entry.PrintedAs ⟨0, 0, none⟩ (sectionLine id) := by
  refine printedAs_line ?_
  have hnumber : Suits none ("preamble, section " ++ toString id) :=
    (Suits.words (by decide)).append (Text.unbroken_nat id.toNat)
  refine ((hnumber.append (by decide)).append ?_).append (by decide)
  split
  · decide
  · decide

/-! ## Texts -/

/-- The entry of a preamble, if there is one. -/
def preambleEntries (sectionId : Option UInt8) : List Entry :=
  (sectionId.map fun _ => ⟨0, 0, none⟩).toList

/-- The lines of an outline show the values of a byte string. -/
structure Shows (outline : Outline) (bytes : Bytes) (values : List Bytes)
    (entries : List Entry) : Prop where
  /-- The values make up what stands behind the preamble. -/
  bytes_eq : bytes = preamble outline.sectionId ++ values.flatten
  /-- The entries are the values and those in them, in preorder. -/
  listed : Entries Limits.standard.maxCollectionLength 0 (preamble outline.sectionId).length values
    entries
  /-- The stream has no other values, and they have no other entries. -/
  only : ∀ values' entries', bytes = preamble outline.sectionId ++ values'.flatten →
    Entries Limits.standard.maxCollectionLength 0 (preamble outline.sectionId).length values'
      entries' → values' = values ∧ entries' = entries
  /-- There is one line for the preamble and one for each entry, in this order. -/
  printed : List.Forall₂ Entry.ShownBy (preambleEntries outline.sectionId ++ entries) outline.lines
  increasing : entries.Pairwise fun earlier later => earlier.offset < later.offset
  inside : ∀ entry ∈ entries, entry.offset < bytes.length

/-- Heading and values are printed one behind the other. -/
theorem printedAs_lines {outline : Outline} {entries : List Entry} {shown : List String}
    (hnodes : addNodes 0 outline.nodes [] = shown.reverse ++ [])
    (hall : List.Forall₂ Entry.PrintedAs entries shown) :
    List.Forall₂ Entry.PrintedAs (preambleEntries outline.sectionId ++ entries) outline.lines := by
  have hshown : (addNodes 0 outline.nodes []).reverse = shown := by
    rw [hnodes, List.append_nil, List.reverse_reverse]
  rw [lines, hshown]
  refine List.rel_append ?_ hall
  cases outline.sectionId with
  | none => exact .nil
  | some id => exact .cons (printedAs_sectionLine id) .nil

/-- Lines are whole if the symbols among their entries are. -/
theorem forall_unbroken_iff {entries : List Entry} {shown : List String}
    (h : List.Forall₂ Entry.PrintedAs entries shown) :
    (∀ line ∈ shown, Text.Unbroken line) ↔
      ∀ entry ∈ entries, ∀ text ∈ entry.symbol?, Text.Unbroken text := by
  induction h with
  | nil => exact iff_of_true nofun nofun
  | cons hfirst _ ih => rw [List.forall_mem_cons, List.forall_mem_cons, hfirst.unbroken_iff, ih]

theorem preambleEntries_symbol? {sectionId : Option UInt8} :
    ∀ entry ∈ preambleEntries sectionId, entry.symbol? = none := by
  cases sectionId with
  | none => exact nofun
  | some id => exact List.forall_mem_singleton.mpr rfl

/-- **An outline lists the values of a stream in preorder**, one line for each, and the text
splits into these lines if and only if no symbol of the stream holds a line break. -/
theorem lines_show {bytes : Bytes} {outline : Outline} (hbytes : bytes ≠ [])
    (h : ofBytes bytes = .ok outline) : ∃ values entries, outline.Shows bytes values entries ∧
      (outline.text.toList.splitOn '\n' = outline.lines.map String.toList ↔
        ∀ entry ∈ entries, ∀ text ∈ entry.symbol?, '\n' ∉ text.toList) := by
  obtain ⟨values, hvalues, hnodes⟩ := charted_of_ofBytes h
  obtain ⟨entries, shown, hlisted, hpile, hall⟩ := exists_lines hnodes 0 []
  have hprinted := printedAs_lines hpile hall
  have hinside : ∀ entry ∈ entries, entry.offset < bytes.length := by
    intro entry hentry
    rw [hvalues, List.length_append]
    exact (hlisted.offset_bounds entry hentry).2
  -- What is not empty has a preamble or a value, so there is a line.
  have hlines : outline.lines ≠ [] := by
    intro hlines
    rw [hlines, List.forall₂_nil_right_iff, List.append_eq_nil_iff] at hprinted
    obtain ⟨hheading, rfl⟩ := hprinted
    cases hlisted
    cases hsection : outline.sectionId with
    | none =>
        rw [hsection] at hvalues
        exact hbytes hvalues
    | some id =>
        rw [hsection] at hheading
        cases hheading
  have honly : ∀ values' entries', bytes = preamble outline.sectionId ++ values'.flatten →
      Entries Limits.standard.maxCollectionLength 0 (preamble outline.sectionId).length values'
        entries' → values' = values ∧ entries' = entries := fun values' entries' hvalues' hlisted' =>
    hlisted'.unique hlisted (List.append_cancel_left (hvalues'.symm.trans hvalues))
  refine ⟨values, entries, ⟨hvalues, hlisted, honly,
    hprinted.imp fun _ _ hline => hline.shown, hlisted.pairwise_lt, hinside⟩, ?_⟩
  -- The line of a preamble is never broken, so it says nothing about the symbols.
  rw [text, Text.splitOn_intercalate_iff hlines, forall_unbroken_iff hprinted,
    List.forall_mem_append, and_iff_right]
  · exact Iff.rfl
  · intro entry hentry
    rw [preambleEntries_symbol? entry hentry]
    exact nofun

/-- A list with a string that is a line break: two values, and two lines. -/
theorem lines_show_quoted_break :
    ∃ outline, ofBytes [0xc0, 0x04, 0x01, 0xa1, 0x01, 0x0a] = .ok outline ∧
      outline.lines = ["     0  list (1 elements)", "     3    string \"\\n\""] ∧
        ∃ values entries, outline.Shows [0xc0, 0x04, 0x01, 0xa1, 0x01, 0x0a] values entries ∧
          (outline.text.toList.splitOn '\n' = outline.lines.map String.toList ↔
            ∀ entry ∈ entries, ∀ text ∈ entry.symbol?, '\n' ∉ text.toList) := by
  have hread : ofBytes [0xc0, 0x04, 0x01, 0xa1, 0x01, 0x0a] =
      .ok ⟨none, [.mk 0 "list (1 elements)" [.mk 3 "string \"\\n\"" []]]⟩ := rfl
  exact ⟨_, hread, rfl, lines_show (by decide) hread⟩

/-- A symbol that is a line break: one value, and a second line that shows none. -/
theorem symbol_break_forges_line :
    ∃ outline, ofBytes [0xa3, 0x01, 0x0a] = .ok outline ∧
      Entries Limits.standard.maxCollectionLength 0 0 [[0xa3, 0x01, 0x0a]] [⟨0, 0, some "\n"⟩] ∧
        outline.text.toList.splitOn '\n' = ["     0  symbol ".toList, []] := by
  have hsymbol : SymbolOf "\n" [0xa3, 0x01, 0x0a] :=
    ⟨(0xa3, 1), by decide, [0x01, 0x0a], rfl, [0x01], rfl, rfl, rfl⟩
  exact ⟨_, rfl, .cons (.symbol hsymbol) .nil .nil, by decide⟩

end Outline

end AmqpEnvelope
