import AmqpEnvelope.Proofs.Outline.Entries
import AmqpEnvelope.Proofs.Outline.Streams
import AmqpEnvelope.Proofs.Text.Unbroken

/-!
# Outlines as they are read

An outline that is read from a row of values has a node for each of them, at the place where
it starts, and the nodes of the values in it below that (`Charted`).  `Outline.draws_node`
is the induction over the room for nesting; `Outline.charted_of_ofBytes` says it of whole
streams.

Of the label it matters only that it does not start with a blank and that nothing can
break the line but a symbol, which stands in it as it is (`Suits`).
-/

namespace AmqpEnvelope

open Cursor Written

/-! ## Labels -/

/-- A label does not start with a blank, and it fits on a line if the symbol does. -/
structure Suits (symbol? : Option String) (label : String) : Prop where
  flush : label.toList.head?.any (· != ' ') = true
  unbroken_iff : Text.Unbroken label ↔ ∀ text ∈ symbol?, Text.Unbroken text

namespace Suits

variable {symbol? : Option String} {label rest : String}

/-- Whether words suit can be decided. -/
theorem words (h : label.toList.head?.any (· != ' ') = true ∧ Text.Unbroken label) :
    Suits none label :=
  ⟨h.1, iff_of_true h.2 nofun⟩

private theorem flush_append (h : label.toList.head?.any (· != ' ') = true) :
    (label ++ rest).toList.head?.any (· != ' ') = true := by
  rw [String.toList_append, List.head?_append]
  cases hhead : label.toList.head? with
  | none =>
      rw [hhead] at h
      cases h
  | some first =>
      rw [hhead] at h
      exact h

theorem append (h : Suits symbol? label) (hrest : Text.Unbroken rest) :
    Suits symbol? (label ++ rest) where
  flush := flush_append h.flush
  unbroken_iff := by rw [Text.unbroken_append, and_iff_left hrest, h.unbroken_iff]

/-- The symbol comes with the rest of the label. -/
theorem carry (h : Suits none label)
    (hrest : Text.Unbroken rest ↔ ∀ text ∈ symbol?, Text.Unbroken text) :
    Suits symbol? (label ++ rest) where
  flush := flush_append h.flush
  unbroken_iff := by rw [Text.unbroken_append, and_iff_right (h.unbroken_iff.mpr nofun), hrest]

end Suits

/-- The text of a symbol, and of nothing else. -/
def Scalar.symbol? (s : Scalar) : Option String :=
  match s with
  | ⟨.symbol, text⟩ => some text
  | _ => none

theorem forall_mem_some_iff {text : String} :
    (∀ found ∈ some text, Text.Unbroken found) ↔ Text.Unbroken text := by
  simp

namespace Outline

theorem unbroken_preview (bytes : Bytes) : Text.Unbroken (preview bytes) := by
  unfold preview
  split
  · exact Text.unbroken_append.mpr ⟨Text.unbroken_encode _, by decide⟩
  · exact Text.unbroken_encode _

/-- Only symbols are shown as they are. -/
theorem suits_scalar (s : Scalar) : Suits s.symbol? (scalarLabel s) := by
  obtain ⟨type, value⟩ := s
  cases type with
  | null =>
      change Suits none "null"
      exact .words (by decide)
  | boolean =>
      cases value with
      | false => exact .words (by decide)
      | true => exact .words (by decide)
  | ubyte => exact (Suits.words (by decide)).append (Text.unbroken_nat value.toNat)
  | ushort => exact (Suits.words (by decide)).append (Text.unbroken_nat value.toNat)
  | uint => exact (Suits.words (by decide)).append (Text.unbroken_nat value.toNat)
  | ulong => exact (Suits.words (by decide)).append (Text.unbroken_nat value.toNat)
  | byte => exact (Suits.words (by decide)).append (Text.unbroken_int value.toInt)
  | short => exact (Suits.words (by decide)).append (Text.unbroken_int value.toInt)
  | int => exact (Suits.words (by decide)).append (Text.unbroken_int value.toInt)
  | long => exact (Suits.words (by decide)).append (Text.unbroken_int value.toInt)
  | float => exact (Suits.words (by decide)).append (Text.unbroken_float _ value.bits.toNat)
  | double => exact (Suits.words (by decide)).append (Text.unbroken_float _ value.bits.toNat)
  | timestamp =>
      have hnumber : Suits none ("timestamp " ++ toString value) :=
        (Suits.words (by decide)).append (Text.unbroken_int value.toInt)
      exact hnumber.append (by decide)
  | char => exact (Suits.words (by decide)).append (Text.unbroken_quoteChar value)
  | uuid => exact (Suits.words (by decide)).append (Text.unbroken_encode value)
  | binary =>
      have hlength : Suits none ("binary (" ++ toString value.length) :=
        (Suits.words (by decide)).append (Text.unbroken_nat _)
      exact (hlength.append (by decide)).append (unbroken_preview value)
  | string => exact (Suits.words (by decide)).append (Text.unbroken_quote value)
  | symbol =>
      have hkind : Suits none "symbol " := .words (by decide)
      exact hkind.carry forall_mem_some_iff.symm

/-- A descriptor stands behind the word that says what it is. -/
theorem suits_described (raw : RawDescriptor) : Suits raw.symbol? s!"described {raw.text}" := by
  have hkind : Suits none "described " := .words (by decide)
  refine hkind.carry ?_
  cases raw with
  | symbol text =>
      change Text.Unbroken ("symbol '" ++ text ++ "'") ↔ ∀ found ∈ some text, Text.Unbroken found
      rw [forall_mem_some_iff, Text.unbroken_append, Text.unbroken_append,
        and_iff_left (by decide), and_iff_right (by decide)]
  | code value =>
      have hcode : Text.Unbroken ("code " ++ Hex.number 16 value.toNat) :=
        Text.unbroken_append.mpr ⟨by decide, Text.unbroken_number _ _⟩
      exact iff_of_true hcode nofun

end Outline

/-! ## Nodes of a row -/

/-- The nodes are those of a row of values that starts at the given place. -/
inductive Charted (cap : Nat) : (offset : Nat) → List Bytes → List Node → Prop
  | nil {offset : Nat} : Charted cap offset [] []
  | cons {offset : Nat} {value : Bytes} {symbol? : Option String} {items row : List Bytes}
      {label : String} {children nodes : List Node} (hholds : Holds cap value symbol? items)
      (hlabel : Suits symbol? label)
      (hinside : Charted cap (offset + (value.length - items.flatten.length)) items children)
      (hbehind : Charted cap (offset + value.length) row nodes) :
      Charted cap offset (value :: row) (.mk offset label children :: nodes)

namespace Charted

variable {cap offset : Nat} {value : Bytes} {items row : List Bytes} {node : Node}
  {nodes : List Node}

theorem append (h : Charted cap offset [value] [node])
    (hbehind : Charted cap (offset + value.length) row nodes) :
    Charted cap offset (value :: row) (node :: nodes) := by
  cases h with
  | cons hholds hlabel hinside _ => exact .cons hholds hlabel hinside hbehind

theorem ne_nil (h : Charted cap offset items nodes) : ∀ item ∈ items, item ≠ [] := by
  induction h with
  | nil => exact nofun
  | cons hholds _ _ _ _ ih => exact List.forall_mem_cons.mpr ⟨hholds.ne_nil, ih⟩

/-- A value with nothing in it has a node without children. -/
theorem leaf {symbol? : Option String} {label : String} (hholds : Holds cap value symbol? [])
    (hlabel : Suits symbol? label) : Charted cap offset [value] [.mk offset label []] :=
  .cons hholds hlabel .nil .nil

/-- A value has the nodes of the values in it below its own. -/
theorem branch {symbol? : Option String} {label : String} {head : Bytes}
    (hholds : Holds cap (head ++ items.flatten) symbol? items) (hlabel : Suits symbol? label)
    (hinside : Charted cap (offset + head.length) items nodes) :
    Charted cap offset [head ++ items.flatten] [.mk offset label nodes] := by
  refine .cons hholds hlabel ?_ .nil
  rwa [List.length_append, Nat.add_sub_cancel]

end Charted

/-! ## Values without parts -/

/-- Every leaf but a symbol has a form of fixed size or one with its number of bytes. -/
theorem FormatCode.forms_of_isLeaf {format : FormatCode} (hleaf : format.isLeaf = true)
    (hsymbol : format.primitive? ≠ some .symbol) :
    (∃ size, format.category = .fixed size ∧
        (format.toByte, size) ∈ plainForms ++ [(0x56, 1), (0x73, 4)]) ∨
      ∃ width, (format.category = .variable width ∨ format.category = .array width) ∧
        (format.toByte, width) ∈ binaryForms ++ arrayForms ++ stringForms := by
  cases format <;> first
    | exact .inl ⟨_, rfl, by decide⟩
    | exact .inr ⟨_, .inl rfl, by decide⟩
    | exact .inr ⟨_, .inr rfl, by decide⟩
    | exact absurd rfl hsymbol
    | cases hleaf

section

variable {cap : Nat} {format : FormatCode} {content rest : Bytes}

theorem holds_of_payload (hleaf : format.isLeaf = true)
    (hsymbol : format.primitive? ≠ some .symbol) (hpayload : Payload format.category rest content) :
    Holds cap (format.toByte :: rest) none [] := by
  obtain ⟨size, hcategory, hform⟩ | ⟨width, hcategory, hform⟩ :=
    FormatCode.forms_of_isLeaf hleaf hsymbol
  · rw [hcategory] at hpayload
    obtain ⟨rfl, hlength⟩ := hpayload
    exact .fixed ⟨_, hform, rfl, hlength⟩
  · exact .sized ⟨_, hform, rest, rfl, (payload_counted_iff hcategory).mp hpayload⟩

/-- A primitive value holds its text if it is a symbol, and nothing else. -/
theorem holds_of_scalar {p : Primitive} {bounds : Limits} {n : Nat} {bs : Bytes}
    {value : p.Carrier} (h : Grammar.scalar p bounds n bs value) :
    n = 1 ∧ Holds cap bs (Scalar.symbol? ⟨p, value⟩) [] := by
  obtain ⟨rfl, format, back, content, offset, rfl, hprimitive, hpayload, hvalue⟩ :=
    Grammar.scalar_iff.mp h
  refine ⟨rfl, ?_⟩
  by_cases hp : p = .symbol
  · subst hp
    exact .symbol (Grammar.symbol_written_iff.mp
      ⟨format, back, content, offset, rfl, hprimitive, hpayload, hvalue⟩)
  · have hnone : Scalar.symbol? ⟨p, value⟩ = none := by
      cases p <;> first
        | rfl
        | exact absurd rfl hp
    rw [hnone]
    refine holds_of_payload (FormatCode.isLeaf_of_primitive? hprimitive) ?_ hpayload
    rw [hprimitive]
    exact fun heq => hp (Option.some.inj heq)

end

/-! ## Readers -/

namespace Outline

/-- What a reader accepts is one value, and its node is that of the value. -/
def Draws (cap : Nat) (reader : Decoding Node) : Prop :=
  ∀ ⦃c : Cursor⦄ ⦃node : Node⦄ ⦃c' : Cursor⦄, c.Coherent →
    c.allowance.maxCollectionLength = cap → reader c = .ok node c' →
      ∃ value, c.Passes 1 value c' ∧ Charted cap c.position [value] [node]

theorem draws_tooDeep (cap : Nat) : Draws cap tooDeep := by
  intro c node c' _ _ h
  obtain ⟨_, _, _, hthrow⟩ := bind_eq_ok_iff.mp h
  exact absurd hthrow throw_ne_ok

section

variable {cap : Nat} {child : Decoding Node} {c c' : Cursor}

/-- Values that are read one behind the other are a row. -/
theorem Draws.collect (hchild : Draws cap child) {count : Nat} {done nodes : List Node}
    (hc : c.Coherent) (hcap : c.allowance.maxCollectionLength = cap)
    (h : Cursor.collect child count done c = .ok nodes c') :
    ∃ items found, nodes = done.reverse ++ found ∧ items.length = count ∧
      c.Passes count items.flatten c' ∧ Charted cap c.position items found := by
  induction count generalizing c done with
  | zero =>
      obtain ⟨rfl, rfl⟩ := pure_eq_ok_iff.mp h
      exact ⟨[], [], (List.append_nil _).symm, rfl,
        ⟨Offers.nil.mpr hc.innermost_consumed_le, (past_nil c).symm⟩, .nil⟩
  | succ count ih =>
      obtain ⟨node, c₁, hread, h⟩ := bind_eq_ok_iff.mp h
      obtain ⟨value, hpasses, hnode⟩ := hchild hc hcap hread
      rw [← hpasses.allowance_eq] at hcap
      -- The others are read where the first value ends.
      obtain ⟨items, found, rfl, rfl, hpasses', hfound⟩ := ih (hpasses.coherent hc) hcap h
      rw [hpasses.2, past_position] at hfound
      refine ⟨value :: items, node :: found, ?_, rfl, ?_, hnode.append hfound⟩
      · rw [List.reverse_cons, List.append_assoc, List.singleton_append]
      · rw [Nat.add_comm]
        exact hpasses.trans hpasses'

/-- A described value is a descriptor and the value that it describes. -/
theorem Draws.described (hchild : Draws cap child) : Draws cap (do
    let offset ← asks Cursor.position
    let opening ← beginDescribed
    let body ← child
    finishDescribed
    return .mk offset s!"described {opening.raw.text}" [body]) := by
  intro c node c' hc hcap h
  obtain ⟨_, _, hasks, h⟩ := bind_eq_ok_iff.mp h
  obtain ⟨rfl, rfl⟩ := asks_eq_ok_iff.mp hasks
  obtain ⟨raw, head, heading, c₁, body, c₂, rfl, ⟨rfl, bs, rfl, hraw⟩, hne, hopen, hopens, hread,
    hpop⟩ := (enters_beginDescribed hc).exists_of_ok h
  have hinner := congrArg Limits.maxCollectionLength hopens.allowance_eq
  obtain ⟨value, hpasses, hbody⟩ :=
    hchild (walks_beginDescribed.coherent hc hopen) (hinner.trans hcap) hread
  obtain ⟨-, -, hwhole⟩ := hopens.leave hpasses hpop
  rw [hopens.position_eq] at hbody
  have hdescribed : Described raw value (FormatCode.described.toByte :: bs ++ [value].flatten) :=
    ⟨bs, by simp; rfl, (Grammar.descriptor_written_iff.mp hraw).2⟩
  have hchart : Charted cap c.position [FormatCode.described.toByte :: bs ++ [value].flatten] _ :=
    .branch (.described hdescribed) (suits_described raw) hbody
  rw [List.flatten_cons, List.flatten_nil, List.append_nil] at hchart
  exact ⟨_, hwhole, hchart⟩

/-- A list is so many values behind a head. -/
theorem Draws.list (hchild : Draws cap child) : Draws cap (do
    let offset ← asks Cursor.position
    let count ← enterList
    let elements ← Cursor.collect child count []
    exitList
    return .mk offset s!"list ({count} elements)" elements) := by
  intro c node c' hc hcap h
  obtain ⟨_, _, hasks, h⟩ := bind_eq_ok_iff.mp h
  obtain ⟨rfl, rfl⟩ := asks_eq_ok_iff.mp hasks
  obtain ⟨_, _, heading, c₁, _, c₂, rfl, ⟨rfl, format, bs, rfl, hheader⟩, -, hopen, hopens, hread,
    hpop⟩ := (enters_enterList hc).exists_of_ok h
  have hinner := congrArg Limits.maxCollectionLength hopens.allowance_eq
  obtain ⟨items, nodes, rfl, hlength, hpasses, hnodes⟩ :=
    hchild.collect (walks_enterList.coherent hc hopen) (hinner.trans hcap) hread
  obtain ⟨-, hsize, hwhole⟩ := hopens.leave hpasses hpop
  have hlist : ListOf cap items (format.toByte :: bs ++ items.flatten) := by
    rw [← hcap]
    exact (listOf_iff hnodes.ne_nil).mp ⟨format, bs, heading, rfl, hheader, hlength.symm, hsize⟩
  have hlabel : Suits none s!"list ({heading.count} elements)" :=
    ((Suits.words (by decide)).append (Text.unbroken_nat heading.count)).append (by decide)
  rw [hopens.position_eq] at hnodes
  exact ⟨_, hwhole, .branch (.list hlist) hlabel hnodes⟩

/-- A map is its keys and values in turn behind a head. -/
theorem Draws.map (hchild : Draws cap child) : Draws cap (do
    let offset ← asks Cursor.position
    let entries ← enterMap
    let elements ← Cursor.collect child (entries * 2) []
    exitMap
    return .mk offset s!"map ({entries} entries)" elements) := by
  intro c node c' hc hcap h
  obtain ⟨_, _, hasks, h⟩ := bind_eq_ok_iff.mp h
  obtain ⟨rfl, rfl⟩ := asks_eq_ok_iff.mp hasks
  obtain ⟨entries, _, heading, c₁, _, c₂, rfl, ⟨hentries, format, bs, rfl, hheader⟩, -, hopen,
    hopens, hread, hpop⟩ := (enters_enterMap hc).exists_of_ok h
  have hinner := congrArg Limits.maxCollectionLength hopens.allowance_eq
  obtain ⟨items, nodes, rfl, hlength, hpasses, hnodes⟩ :=
    hchild.collect (walks_enterMap.coherent hc hopen) (hinner.trans hcap) hread
  obtain ⟨-, hsize, hwhole⟩ := hopens.leave hpasses hpop
  have hcount : heading.count = 2 * entries := hentries
  have hlength : items.length = entries * 2 := hlength
  have hmap : MapOf cap items (format.toByte :: bs ++ items.flatten) := by
    refine ⟨?_, by omega⟩
    rw [← hcap]
    exact (collected_map_iff hnodes.ne_nil).mp
      ⟨format, bs, heading, rfl, hheader, by omega, hsize⟩
  have hlabel : Suits none s!"map ({entries} entries)" :=
    ((Suits.words (by decide)).append (Text.unbroken_nat entries)).append (by decide)
  rw [hopens.position_eq] at hnodes
  exact ⟨_, hwhole, .branch (.map hmap) hlabel hnodes⟩

/-- Arrays and decimals are one payload, which is not looked at. -/
theorem draws_captured {format : FormatCode} (hc : c.Coherent)
    (hpeek : c.peekFormat? = some format) (hleaf : format.isLeaf = true)
    (hnone : format.primitive? = none) {bytes : Bytes} (h : capture c = .ok bytes c') :
    c.Passes 1 bytes c' ∧ Charted cap c.position [bytes]
      [.mk c.position s!"{format.name} ({bytes.length} bytes) {preview bytes}" []] := by
  obtain ⟨_, bs, ⟨rfl, hextent, rfl⟩, hpasses⟩ := (readsAt_capture hc).sound h
  obtain ⟨rest, rfl⟩ := eq_cons_of_peekFormat? hpasses.1 hextent.ne_nil hpeek
  have hcategory : format.category ≠ .described := by
    rw [Ne, FormatCode.category_eq_described_iff]
    rintro rfl
    cases hleaf
  obtain ⟨content, hpayload⟩ := (Extent.sized_iff hcategory).mp hextent
  have hsymbol : format.primitive? ≠ some .symbol := by
    rw [hnone]
    exact nofun
  have hname : Suits none format.name := by
    cases format <;> exact .words (by decide)
  refine ⟨hpasses, .leaf (holds_of_payload hleaf hsymbol hpayload) ?_⟩
  have hlength := (hname.append (by decide : Text.Unbroken " (")).append
    (Text.unbroken_nat (format.toByte :: rest).length)
  exact (hlength.append (by decide : Text.Unbroken " bytes) ")).append (unbroken_preview _)

/-- A value is drawn if the values in it are. -/
theorem Draws.nodeWith (hchild : Draws cap child) : Draws cap (nodeWith child) := by
  intro c node c' hc hcap h
  obtain ⟨_, _, hasks, h⟩ := bind_eq_ok_iff.mp h
  obtain ⟨rfl, rfl⟩ := asks_eq_ok_iff.mp hasks
  obtain ⟨_, _, hasks, h⟩ := bind_eq_ok_iff.mp h
  obtain ⟨rfl, rfl⟩ := asks_eq_ok_iff.mp hasks
  cases hpeek : c.peekFormat? with
  | none =>
      rw [hpeek] at h
      -- Where no code stands, the label is never reached.
      obtain ⟨_, c₁, hskip, -⟩ := bind_eq_ok_iff.mp h
      exact absurd hskip (skip_ne_ok_of_peekFormat? hc hpeek)
  | some format =>
      rw [hpeek] at h
      dsimp only at h
      cases hp : format.primitive? with
      | some p =>
          rw [hp] at h
          obtain ⟨s, c₁, hscalar, h⟩ := bind_eq_ok_iff.mp h
          obtain ⟨rfl, rfl⟩ := pure_eq_ok_iff.mp h
          obtain ⟨value, c₂, hread, h⟩ := bind_eq_ok_iff.mp hscalar
          obtain ⟨rfl, rfl⟩ := pure_eq_ok_iff.mp h
          obtain ⟨n, bs, hg, hpasses⟩ := (readsAt_read hc p).sound hread
          obtain ⟨rfl, hholds⟩ := holds_of_scalar hg
          exact ⟨bs, hpasses, .leaf hholds (suits_scalar _)⟩
      | none =>
          rw [hp] at h
          cases format with
          | described => exact hchild.described hc hcap h
          | list0 | list8 | list32 => exact hchild.list hc hcap h
          | map8 | map32 => exact hchild.map hc hcap h
          | array8 | array32 | decimal32 | decimal64 | decimal128 =>
              obtain ⟨bytes, c₁, hcapture, h⟩ := bind_eq_ok_iff.mp h
              obtain ⟨rfl, rfl⟩ := pure_eq_ok_iff.mp h
              exact ⟨bytes, draws_captured hc hpeek rfl hp hcapture⟩
          | _ => cases hp

theorem draws_node (cap room : Nat) : Draws cap (node room) := by
  induction room with
  | zero => exact (draws_tooDeep cap).nodeWith
  | succ room ih => exact ih.nodeWith

theorem draws_value (cap : Nat) : Draws cap value := by
  intro c node c' hc hcap h
  obtain ⟨_, _, hget, h⟩ := bind_eq_ok_iff.mp h
  obtain ⟨rfl, rfl⟩ := get_eq_ok_iff.mp hget
  exact draws_node cap _ hc hcap h

/-! ## Streams -/

/-- Up to the end a row of values is read, by induction on the steps.  Every value takes a
byte, so there are steps enough. -/
theorem charted_of_valuesUpTo (hc : c.Coherent) (hframes : c.frames = []) {steps : Nat}
    (hsteps : c.unread.length ≤ steps) {done nodes : List Node}
    (h : valuesUpTo steps done c = .ok nodes c') :
    ∃ values found, nodes = done.reverse ++ found ∧ c.unread = values.flatten ∧
      Charted c.limits.maxCollectionLength c.position values found := by
  induction steps generalizing c done with
  | zero =>
      obtain ⟨rfl, rfl⟩ := pure_eq_ok_iff.mp h
      have hunread : c.unread = [] := List.length_eq_zero_iff.mp (Nat.le_zero.mp hsteps)
      exact ⟨[], [], (List.append_nil _).symm, hunread, .nil⟩
  | succ steps ih =>
      by_cases hend : c.atEnd = true
      · have hok := valuesUpTo_succ_of_atEnd hend steps done
        obtain ⟨rfl, rfl⟩ : done.reverse = nodes ∧ c = c' := by
          rw [hok] at h
          exact EStateM.Result.ok.inj h
        exact ⟨[], [], (List.append_nil _).symm, (atEnd_iff hc).mp hend, .nil⟩
      · obtain ⟨node, c₁, hvalue, hrest⟩ := (valuesUpTo_succ_iff hend).mp h
        obtain ⟨value, hpasses, hnode⟩ := draws_value _ hc rfl hvalue
        have hunread := hpasses.unread_eq
        have hlength := List.length_pos_iff.mpr (hnode.ne_nil value List.mem_cons_self)
        rw [hunread, List.length_append] at hsteps
        obtain ⟨values, found, rfl, hvalues, hfound⟩ :=
          ih (hpasses.coherent hc) (hpasses.no_frames hframes) (by omega) hrest
        rw [hpasses.2, past_position, past_limits] at hfound
        refine ⟨value :: values, node :: found, ?_, ?_, hnode.append hfound⟩
        · rw [List.reverse_cons, List.append_assoc, List.singleton_append]
        · rw [hunread, hvalues, List.flatten_cons]

/-- The bytes of a preamble, if there is one. -/
def preamble : Option UInt8 → Bytes
  | none => []
  | some number => streamMagic ++ [number]

theorem charted_of_afterPreamble (hc : c.Coherent) (hframes : c.frames = [])
    {sectionId : Option UInt8} {outline : Outline}
    (h : afterPreamble sectionId c = .ok outline c') :
    outline.sectionId = sectionId ∧ ∃ values, c.unread = values.flatten ∧
      Charted c.limits.maxCollectionLength c.position values outline.nodes := by
  obtain ⟨_, _, hget, h⟩ := bind_eq_ok_iff.mp h
  obtain ⟨rfl, rfl⟩ := get_eq_ok_iff.mp hget
  obtain ⟨nodes, hread, rfl⟩ := map_eq_ok_iff.mp h
  have hlength := hc.position_add_length
  obtain ⟨values, found, rfl, hvalues, hfound⟩ :=
    charted_of_valuesUpTo hc hframes (by omega) hread
  exact ⟨rfl, values, hvalues, hfound⟩

theorem exists_stream_of_ofBytes {bytes : Bytes} {outline : Outline}
    (h : ofBytes bytes = .ok outline) :
    ∃ c', stream (Cursor.start bytes Limits.standard) = .ok outline c' := by
  unfold ofBytes at h
  cases hstream : stream (Cursor.start bytes Limits.standard) with
  | ok found c' =>
      rw [hstream] at h
      exact ⟨c', by rw [Except.ok.inj h]⟩
  | error e c' =>
      rw [hstream] at h
      cases h

/-- The outline of a stream has the nodes of the values behind its preamble. -/
theorem charted_of_ofBytes {bytes : Bytes} {outline : Outline} (h : ofBytes bytes = .ok outline) :
    ∃ values, bytes = preamble outline.sectionId ++ values.flatten ∧
      Charted Limits.standard.maxCollectionLength (preamble outline.sectionId).length values
        outline.nodes := by
  have hc := start_coherent bytes Limits.standard
  obtain ⟨c', hstream⟩ := exists_stream_of_ofBytes h
  by_cases hmagic : streamMagic <+: bytes
  · obtain ⟨rest, rfl⟩ := hmagic
    have hstart : (Cursor.start (streamMagic ++ rest) Limits.standard).unread =
      streamMagic ++ rest := rfl
    obtain ⟨hc₁, hunread⟩ := advance_coherent hc rfl hstart
    rw [stream_of_magic rfl (List.prefix_append _ _)] at hstream
    obtain ⟨number, c₁, hread, hrest⟩ := bind_eq_ok_iff.mp hstream
    obtain ⟨hhead, rfl⟩ := (rawByte_eq_ok_iff hc₁ rfl).mp hread
    rw [hunread] at hhead
    obtain ⟨more, rfl⟩ := List.head?_eq_some_iff.mp hhead
    obtain ⟨hc₂, hmore⟩ := advance_coherent hc₁ rfl (hunread.trans List.singleton_append.symm)
    obtain ⟨hsection, values, hvalues, hnodes⟩ := charted_of_afterPreamble hc₂ rfl hrest
    rw [hsection]
    have hrest : more = values.flatten := hmore.symm.trans hvalues
    refine ⟨values, ?_, hnodes⟩
    rw [preamble, hrest, List.append_assoc, List.singleton_append]
  · rw [stream_of_not_magic hmagic] at hstream
    obtain ⟨hsection, values, hvalues, hnodes⟩ := charted_of_afterPreamble hc rfl hstream
    rw [hsection]
    exact ⟨values, hvalues, hnodes⟩

end

end Outline

end AmqpEnvelope
