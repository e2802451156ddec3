import AmqpEnvelope.Proofs.Outline.WellFormed
import AmqpEnvelope.Proofs.Written.Extent
import AmqpEnvelope.Proofs.Written.Shallow

/-!
# The values of a stream in order

A stream is a row of values, and a value may hold values of its own, which are its last
bytes (`Written.Holds`).  `Written.Entries` lists a row in preorder: every value stands in
front of the values in it, and these in front of what comes behind.  An entry says how deep
a value lies and where it starts.

Nothing here knows of readers.  Because every value has a byte in front of those in it, the
places in such a list increase (`Written.Entries.pairwise_lt`).  Because the first byte says what
a value holds, and its form where it ends, the bytes of a row have one list of entries
(`Written.Entries.unique`).
-/

namespace AmqpEnvelope

/-- The symbol that a descriptor is written as. -/
def RawDescriptor.symbol? : RawDescriptor → Option String
  | symbol text => some text
  | code _ => none

/-- A value in a stream: how many values are around it, where its first byte stands, and
the symbol that it is or is described by, if there is one. -/
structure Entry where
  depth : Nat
  offset : Nat
  symbol? : Option String
deriving DecidableEq, Repr

namespace Written

/-- What the bytes of a value hold: the symbol that it is or is described by, and the
values in it. -/
inductive Holds (cap : Nat) : Bytes → Option String → List Bytes → Prop
  | fixed {content value : Bytes} (h : Fixed (plainForms ++ [(0x56, 1), (0x73, 4)]) content value) :
      Holds cap value none []
  | sized {content value : Bytes}
      (h : Sized (binaryForms ++ arrayForms ++ stringForms) content value) : Holds cap value none []
  | symbol {text : String} {value : Bytes} (h : SymbolOf text value) : Holds cap value (some text) []
  | list {items : List Bytes} {value : Bytes} (h : ListOf cap items value) :
      Holds cap value none items
  | map {items : List Bytes} {value : Bytes} (h : MapOf cap items value) :
      Holds cap value none items
  | described {raw : RawDescriptor} {body value : Bytes} (h : Described raw body value) :
      Holds cap value raw.symbol? [body]

/-- The values of a row in preorder, where the row starts at the given place and so many
values are around it. -/
inductive Entries (cap : Nat) : (depth offset : Nat) → List Bytes → List Entry → Prop
  | nil {depth offset : Nat} : Entries cap depth offset [] []
  | cons {depth offset : Nat} {value : Bytes} {symbol? : Option String} {items row : List Bytes}
      {inside behind : List Entry} (hholds : Holds cap value symbol? items)
      (hinside : Entries cap (depth + 1) (offset + (value.length - items.flatten.length)) items
        inside)
      (hbehind : Entries cap depth (offset + value.length) row behind) :
      Entries cap depth offset (value :: row) (⟨depth, offset, symbol?⟩ :: (inside ++ behind))

/-! ## Values in a value -/

section

variable {cap : Nat} {value : Bytes} {symbol? : Option String} {items : List Bytes}

theorem Collected.exists_head {forms : Forms} (h : Collected forms cap items value) :
    ∃ head, head ≠ [] ∧ value = head ++ items.flatten := by
  obtain ⟨form, -, _, rfl, -, count, -, -, size, rfl, -, -⟩ := h
  refine ⟨form.1 :: (size ++ count), List.cons_ne_nil _ _, ?_⟩
  rw [List.cons_append, List.append_assoc]

/-- The values in a value are its last bytes, and something stands in front of them. -/
theorem Holds.exists_head (h : Holds cap value symbol? items) :
    ∃ head, head ≠ [] ∧ value = head ++ items.flatten := by
  cases h with
  | fixed h =>
      obtain ⟨form, -, rfl, -⟩ := h
      exact ⟨_, List.cons_ne_nil _ _, (List.append_nil _).symm⟩
  | sized h =>
      obtain ⟨form, -, rest, rfl, -⟩ := h
      exact ⟨_, List.cons_ne_nil _ _, (List.append_nil _).symm⟩
  | symbol h =>
      obtain ⟨form, -, rest, rfl, -⟩ := h
      exact ⟨_, List.cons_ne_nil _ _, (List.append_nil _).symm⟩
  | list h =>
      rcases h with ⟨rfl, rfl⟩ | h
      · exact ⟨[0x45], List.cons_ne_nil _ _, rfl⟩
      · exact h.exists_head
  | map h => exact h.1.exists_head
  | described h =>
      obtain ⟨descriptor, rfl, -⟩ := h
      exact ⟨0x00 :: descriptor, List.cons_ne_nil _ _, by simp⟩

theorem Holds.length_flatten_lt (h : Holds cap value symbol? items) :
    items.flatten.length < value.length := by
  obtain ⟨head, hhead, rfl⟩ := h.exists_head
  have hlength := List.length_pos_iff.mpr hhead
  rw [List.length_append]
  omega

theorem Holds.ne_nil (h : Holds cap value symbol? items) : value ≠ [] :=
  List.ne_nil_of_length_pos (Nat.lt_of_le_of_lt (Nat.zero_le _) h.length_flatten_lt)

end

/-! ## Places -/

section

variable {cap depth offset : Nat} {row : List Bytes} {entries : List Entry}

/-- The values of a row start in the row. -/
theorem Entries.offset_bounds (h : Entries cap depth offset row entries) :
    ∀ entry ∈ entries, offset ≤ entry.offset ∧ entry.offset < offset + row.flatten.length := by
  induction h with
  | nil => exact nofun
  | @cons depth offset value symbol? items row inside behind hholds _ _ ihinside ihbehind =>
      have hlength := hholds.length_flatten_lt
      rw [List.flatten_cons, List.length_append, List.forall_mem_cons]
      refine ⟨?_, fun entry hentry => ?_⟩
      · dsimp only
        omega
      · rcases List.mem_append.mp hentry with hentry | hentry
        · have hbounds := ihinside entry hentry
          omega
        · have hbounds := ihbehind entry hentry
          omega

/-- A value starts before those in it, and these before what comes behind. -/
theorem Entries.pairwise_lt (h : Entries cap depth offset row entries) :
    entries.Pairwise fun earlier later => earlier.offset < later.offset := by
  induction h with
  | nil => exact .nil
  | @cons depth offset value symbol? items row inside behind hholds hinside hbehind ihinside
      ihbehind =>
      have hlength := hholds.length_flatten_lt
      refine .cons (fun entry hentry => ?_) (List.pairwise_append.mpr ⟨ihinside, ihbehind, ?_⟩)
      · dsimp only
        rcases List.mem_append.mp hentry with hentry | hentry
        · have hbounds := hinside.offset_bounds entry hentry
          omega
        · have hbounds := hbehind.offset_bounds entry hentry
          omega
      · intro earlier hearlier later hlater
        have hbounds := hinside.offset_bounds earlier hearlier
        have hbounds' := hbehind.offset_bounds later hlater
        omega

end

/-! ## One listing -/

section

variable {forms : Forms} {cap : Nat} {content bytes value : Bytes} {items items' : List Bytes}
  {symbol? symbol?' : Option String}

theorem Collected.exists_sized (h : Collected forms cap items bytes) :
    ∃ content, Sized forms content bytes := by
  obtain ⟨form, hform, rest, hbytes, -, count, -, -, hcounted⟩ := h
  exact ⟨_, form, hform, rest, hbytes, hcounted⟩

theorem extent_of_sized (h : Sized forms content bytes)
    (hforms : ∀ form ∈ forms, form ∈ countedForms) : Extent 0 bytes :=
  (Shallow.counted (h.mono hforms) : Shallow 0 0 bytes).extent

/-- A value extends as far as its form says. -/
theorem Holds.extent (h : Holds cap value symbol? items)
    (hitems : ∀ item ∈ items, ∃ room, Extent room item) : ∃ room, Extent room value := by
  cases h with
  | fixed h =>
      have hshallow : Shallow 0 0 value := .fixed (h.mono (by decide))
      exact ⟨0, hshallow.extent⟩
  | sized h => exact ⟨0, extent_of_sized h (by decide)⟩
  | symbol h => exact ⟨0, extent_of_sized h (by decide)⟩
  | list h => exact ⟨0, h.extent 0⟩
  | map h =>
      obtain ⟨content, hsized⟩ := h.1.exists_sized
      exact ⟨0, extent_of_sized hsized (by decide)⟩
  | described h =>
      obtain ⟨room, hbody⟩ := hitems _ List.mem_cons_self
      exact ⟨room + 1, h.extent hbody⟩

theorem Entries.extent {depth offset : Nat} {row : List Bytes} {entries : List Entry}
    (h : Entries cap depth offset row entries) : ∀ value ∈ row, ∃ room, Extent room value := by
  induction h with
  | nil => exact nofun
  | cons hholds _ _ ihinside ihbehind =>
      exact List.forall_mem_cons.mpr ⟨hholds.extent ihinside, ihbehind⟩

/-- What a first byte says of a value. -/
inductive Shape where
  | described
  | list
  | map
  | symbol
  | plain
deriving DecidableEq

/-- The shape of the values that start with a byte. -/
def shapeOf (first : UInt8) : Shape :=
  if first = 0x00 then .described
  else if first ∈ [0x45, 0xc0, 0xd0] then .list
  else if first ∈ [0xc1, 0xd1] then .map
  else if first ∈ [0xa3, 0xb3] then .symbol
  else .plain

/-- What a value of the shape holds. -/
def Shape.Allows (cap : Nat) (value : Bytes) (symbol? : Option String) (items : List Bytes) :
    Shape → Prop
  | described => ∃ raw body, Described raw body value ∧ symbol? = raw.symbol? ∧ items = [body]
  | list => ListOf cap items value ∧ symbol? = none
  | map => MapOf cap items value ∧ symbol? = none
  | symbol => ∃ text, SymbolOf text value ∧ symbol? = some text ∧ items = []
  | plain => symbol? = none ∧ items = []

theorem Holds.exists_first (h : Holds cap value symbol? items) :
    ∃ first, value.head? = some first ∧ (shapeOf first).Allows cap value symbol? items := by
  cases h with
  | fixed h =>
      have hshape : ∀ form ∈ plainForms ++ [(0x56, 1), (0x73, 4)], shapeOf form.1 = .plain := by
        decide
      obtain ⟨form, hform, rfl, -⟩ := h
      refine ⟨form.1, rfl, ?_⟩
      rw [hshape form hform]
      exact ⟨rfl, rfl⟩
  | sized h =>
      have hshape : ∀ form ∈ binaryForms ++ arrayForms ++ stringForms,
          shapeOf form.1 = .plain := by
        decide
      obtain ⟨form, hform, rest, rfl, -⟩ := h
      refine ⟨form.1, rfl, ?_⟩
      rw [hshape form hform]
      exact ⟨rfl, rfl⟩
  | symbol h =>
      have hshape : ∀ form ∈ symbolForms, shapeOf form.1 = .symbol := by decide
      obtain ⟨form, hform, rest, rfl, hcounted⟩ := h
      refine ⟨form.1, rfl, ?_⟩
      rw [hshape form hform]
      exact ⟨_, ⟨form, hform, rest, rfl, hcounted⟩, rfl, rfl⟩
  | list h =>
      obtain ⟨format, rest, rfl, hformat⟩ := exists_code_of_listOf h
      refine ⟨format.toByte, rfl, ?_⟩
      rcases hformat with rfl | rfl | rfl <;> exact ⟨h, rfl⟩
  | map h =>
      obtain ⟨format, rest, rfl, hformat⟩ := exists_code_of_mapOf h
      refine ⟨format.toByte, rfl, ?_⟩
      rcases hformat with rfl | rfl <;> exact ⟨h, rfl⟩
  | described h =>
      obtain ⟨descriptor, rfl, hraw⟩ := h
      exact ⟨0x00, rfl, _, _, ⟨descriptor, rfl, hraw⟩, rfl, rfl⟩

/-- What a value holds is determined by its bytes. -/
theorem Holds.unique (h : Holds cap value symbol? items) (h' : Holds cap value symbol?' items') :
    symbol? = symbol?' ∧ items.flatten = items'.flatten := by
  obtain ⟨first, hfirst, hallows⟩ := h.exists_first
  obtain ⟨first', hfirst', hallows'⟩ := h'.exists_first
  obtain rfl := Option.some.inj (hfirst.symm.trans hfirst')
  -- Both are of the shape that the first byte gives, so only like meets like.
  cases hshape : shapeOf first with
  | described =>
      rw [hshape] at hallows hallows'
      obtain ⟨raw, body, hdescribed, rfl, rfl⟩ := hallows
      obtain ⟨raw', body', hdescribed', rfl, rfl⟩ := hallows'
      obtain ⟨rfl, rfl⟩ := hdescribed.inj hdescribed'
      exact ⟨rfl, rfl⟩
  | list =>
      rw [hshape] at hallows hallows'
      obtain ⟨hlist, rfl⟩ := hallows
      obtain ⟨hlist', rfl⟩ := hallows'
      exact ⟨rfl, hlist.flatten_unique hlist'⟩
  | map =>
      rw [hshape] at hallows hallows'
      obtain ⟨hmap, rfl⟩ := hallows
      obtain ⟨hmap', rfl⟩ := hallows'
      exact ⟨rfl, hmap.1.flatten_unique (by decide) hmap'.1⟩
  | symbol =>
      rw [hshape] at hallows hallows'
      obtain ⟨text, hsymbol, rfl, rfl⟩ := hallows
      obtain ⟨text', hsymbol', rfl, rfl⟩ := hallows'
      exact ⟨congrArg some (hsymbol.unique hsymbol'), rfl⟩
  | plain =>
      rw [hshape] at hallows hallows'
      obtain ⟨rfl, rfl⟩ := hallows
      obtain ⟨rfl, rfl⟩ := hallows'
      exact ⟨rfl, rfl⟩

/-- Bytes are a row of values in one way at most, and these are listed in one way. -/
theorem Entries.unique {depth offset : Nat} {row row' : List Bytes} {entries entries' : List Entry}
    (h : Entries cap depth offset row entries) (h' : Entries cap depth offset row' entries')
    (hrow : row.flatten = row'.flatten) : row = row' ∧ entries = entries' := by
  induction h generalizing row' entries' with
  | nil =>
      cases h' with
      | nil => exact ⟨rfl, rfl⟩
      | cons hholds _ _ => exact absurd (List.append_eq_nil_iff.mp hrow.symm).1 hholds.ne_nil
  | cons hholds hinside hbehind ihinside ihbehind =>
      cases h' with
      | nil => exact absurd (List.append_eq_nil_iff.mp hrow).1 hholds.ne_nil
      | cons hholds' hinside' hbehind' =>
          rw [List.flatten_cons, List.flatten_cons] at hrow
          -- The rows start alike, and a value ends where its form says, so they share the first.
          obtain ⟨room, hextent⟩ := hholds.extent hinside.extent
          obtain ⟨room', hextent'⟩ := hholds'.extent hinside'.extent
          obtain rfl := hextent.unique hextent' hrow
          obtain ⟨rfl, hitems⟩ := hholds.unique hholds'
          rw [← hitems] at hinside'
          obtain ⟨rfl, rfl⟩ := ihinside hinside' hitems
          obtain ⟨rfl, rfl⟩ := ihbehind hbehind' (List.append_cancel_left hrow)
          exact ⟨rfl, rfl⟩

end

end Written

end AmqpEnvelope
