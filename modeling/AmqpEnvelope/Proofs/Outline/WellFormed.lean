import AmqpEnvelope.Proofs.Grammar.Node
import AmqpEnvelope.Proofs.Written.Row

/-!
# Well-formed values

What an outline can be read from, said of the bytes alone (`WellFormed`), and that the
grammar of outlines says the same (`node_iff`).

A value without parts is a form and its payload, of which only booleans, characters and
texts ask for more than the right number of bytes.  A list, map or described value is as
well formed as its parts, one level further down.
-/

namespace AmqpEnvelope

open Cursor Written

/-- The forms of a fixed size whose payload may be anything: the numbers, the decimals,
timestamps, UUIDs, and the constants, which have none. -/
def plainForms : Forms :=
  [(0x40, 0), (0x41, 0), (0x42, 0), (0x43, 0), (0x44, 0),
    (0x50, 1), (0x51, 1), (0x52, 1), (0x53, 1), (0x54, 1), (0x55, 1),
    (0x60, 2), (0x61, 2),
    (0x70, 4), (0x71, 4), (0x72, 4), (0x74, 4),
    (0x80, 8), (0x81, 8), (0x82, 8), (0x83, 8), (0x84, 8),
    (0x94, 16), (0x98, 16)]

/-- A well-formed value that has the given number of values around it. -/
inductive WellFormed (limits : Limits) : (depth : Nat) → Bytes → Prop
  | plain {depth : Nat} {content bytes : Bytes} (hbytes : Fixed plainForms content bytes) :
      WellFormed limits depth bytes
  | boolean {depth : Nat} {content bytes : Bytes} (hbytes : Fixed [(0x56, 1)] content bytes)
      (hvalue : content = [0x00] ∨ content = [0x01]) : WellFormed limits depth bytes
  | char {depth : Nat} {content bytes : Bytes} (hbytes : Fixed [(0x73, 4)] content bytes)
      (hvalue : (BigEndian.toNat content).isValidChar) : WellFormed limits depth bytes
  | sized {depth : Nat} {content bytes : Bytes}
      (hbytes : Sized (binaryForms ++ arrayForms) content bytes) : WellFormed limits depth bytes
  | text {depth : Nat} {text : String} {bytes : Bytes}
      (hbytes : Sized (stringForms ++ symbolForms) (Utf8.encode text) bytes) :
      WellFormed limits depth bytes
  | list {depth : Nat} {items : List Bytes} {bytes : Bytes} (hdepth : depth < limits.maxDepth)
      (hbytes : ListOf limits.maxCollectionLength items bytes)
      (hitems : ∀ item ∈ items, WellFormed limits (depth + 1) item) :
      WellFormed limits depth bytes
  | map {depth : Nat} {items : List Bytes} {bytes : Bytes} (hdepth : depth < limits.maxDepth)
      (hbytes : MapOf limits.maxCollectionLength items bytes)
      (hitems : ∀ item ∈ items, WellFormed limits (depth + 1) item) :
      WellFormed limits depth bytes
  | described {depth : Nat} {raw : RawDescriptor} {body bytes : Bytes}
      (hdepth : depth < limits.maxDepth) (hbytes : Described raw body bytes)
      (hbody : WellFormed limits (depth + 1) body) : WellFormed limits depth bytes

/-! ## Values without parts -/

namespace FormatCode

/-- Values with this code have no parts. -/
def isLeaf : FormatCode → Bool
  | described | list0 | list8 | list32 | map8 | map32 => false
  | _ => true

/-- Any payload of the right size will do. -/
def isFree : FormatCode → Bool
  | boolean | char | string8 | string32 | symbol8 | symbol32 => false
  | format => format.isLeaf

/-- The payload has a meaning, if the code is one of a primitive type. -/
def Admits (format : FormatCode) (content : Bytes) : Prop :=
  ∀ p, format.primitive? = some p → ∃ value offset, p.interpret format content offset = .ok value

theorem admits_of_isFree {format : FormatCode} (h : format.isFree = true) (content : Bytes) :
    format.Admits content := by
  intro p hp
  cases format <;> cases hp <;> first
    | exact ⟨_, 0, rfl⟩
    | cases h

/-- The forms of free codes are plain or those of binaries and arrays. -/
theorem forms_of_isFree {format : FormatCode} (h : format.isFree = true) :
    (∃ size, format.category = .fixed size ∧ (format.toByte, size) ∈ plainForms) ∨
      ∃ width, (format.category = .variable width ∨ format.category = .array width) ∧
        (format.toByte, width) ∈ binaryForms ++ arrayForms := by
  cases format <;> first
    | exact .inl ⟨_, rfl, by decide⟩
    | exact .inr ⟨_, .inl rfl, by decide⟩
    | exact .inr ⟨_, .inr rfl, by decide⟩
    | cases h

theorem exists_of_mem_plainForms {form : UInt8 × Nat} (h : form ∈ plainForms) :
    ∃ format : FormatCode, form.1 = format.toByte ∧ format.category = .fixed form.2 ∧
      format.isFree = true := by
  obtain ⟨format, hbyte, hformat⟩ := exists_code_of_forms
    (fun format width => format.category == .fixed width && format.isFree) (by decide) h
  rw [Bool.and_eq_true, beq_iff_eq] at hformat
  exact ⟨format, hbyte, hformat⟩

theorem exists_of_mem_sizedForms {form : UInt8 × Nat} (h : form ∈ binaryForms ++ arrayForms) :
    ∃ format : FormatCode, form.1 = format.toByte ∧
      (format.category = .variable form.2 ∨ format.category = .array form.2) ∧
        format.isFree = true := by
  obtain ⟨format, hbyte, hformat⟩ := exists_code_of_forms (fun format width =>
    (format.category == .variable width || format.category == .array width) && format.isFree)
    (by decide) h
  rw [Bool.and_eq_true, Bool.or_eq_true, beq_iff_eq, beq_iff_eq] at hformat
  exact ⟨format, hbyte, hformat⟩

theorem exists_of_mem_textForms {form : UInt8 × Nat} (h : form ∈ stringForms ++ symbolForms) :
    ∃ format : FormatCode, form.1 = format.toByte ∧ format.category = .variable form.2 ∧
      (format.primitive? = some .string ∨ format.primitive? = some .symbol) := by
  obtain ⟨format, hbyte, hformat⟩ := exists_code_of_forms (fun format width =>
    format.category == .variable width &&
      (format.primitive? == some .string || format.primitive? == some .symbol)) (by decide) h
  rw [Bool.and_eq_true, Bool.or_eq_true, beq_iff_eq, beq_iff_eq, beq_iff_eq] at hformat
  exact ⟨format, hbyte, hformat⟩

theorem admits_boolean_iff {content : Bytes} (hlength : content.length = 1) :
    boolean.Admits content ↔ content = [0x00] ∨ content = [0x01] := by
  obtain ⟨byte, rfl⟩ := List.length_eq_one_iff.mp hlength
  simp only [List.cons.injEq, and_true]
  constructor
  · intro h
    obtain ⟨value, offset, hvalue⟩ := h .boolean rfl
    change (if byte = 0 then .ok false
      else if byte = 1 then .ok true
      else .error (.mismatch (.booleanByte byte) (offset + 1)) : Except DecodeError Bool) =
        .ok value at hvalue
    by_cases hzero : byte = 0
    · exact .inl hzero
    · by_cases hone : byte = 1
      · exact .inr hone
      · rw [if_neg hzero, if_neg hone] at hvalue
        cases hvalue
  · rintro (rfl | rfl) p hp
    · cases hp
      exact ⟨false, 0, rfl⟩
    · cases hp
      exact ⟨true, 0, rfl⟩

theorem admits_char_iff {content : Bytes} :
    char.Admits content ↔ (BigEndian.toNat content).isValidChar := by
  constructor
  · intro h
    obtain ⟨value, offset, hvalue⟩ := h .char rfl
    dsimp only [Primitive.interpret, Primitive.scalar?] at hvalue
    by_cases hvalid : (BigEndian.toNat content).isValidChar
    · exact hvalid
    · rw [dif_neg hvalid] at hvalue
      cases hvalue
  · intro hvalid p hp
    cases hp
    refine ⟨Char.ofNatAux _ hvalid, 0, ?_⟩
    dsimp only [Primitive.interpret, Primitive.scalar?]
    rw [dif_pos hvalid]

theorem admits_text_iff {format : FormatCode} {content : Bytes}
    (h : format.primitive? = some .string ∨ format.primitive? = some .symbol) :
    format.Admits content ↔ ∃ text, content = Utf8.encode text := by
  constructor
  · intro hadmits
    rcases h with h | h
    · obtain ⟨text, offset, htext⟩ := hadmits _ h
      exact ⟨text, Grammar.utf8_eq_ok_iff.mp htext⟩
    · obtain ⟨text, offset, htext⟩ := hadmits _ h
      exact ⟨text, Grammar.utf8_eq_ok_iff.mp htext⟩
  · rintro ⟨text, rfl⟩ p hp
    rcases h with h | h
    · obtain rfl := Option.some.inj (h.symm.trans hp)
      exact ⟨text, 0, Grammar.utf8_eq_ok_iff.mpr rfl⟩
    · obtain rfl := Option.some.inj (h.symm.trans hp)
      exact ⟨text, 0, Grammar.utf8_eq_ok_iff.mpr rfl⟩

theorem isLeaf_of_isFree {format : FormatCode} (h : format.isFree = true) :
    format.isLeaf = true := by
  cases format <;> first
    | rfl
    | cases h

theorem isLeaf_of_primitive? {format : FormatCode} {p : Primitive}
    (h : format.primitive? = some p) : format.isLeaf = true := by
  cases format <;> first
    | rfl
    | cases h

theorem isLeaf_of_text {format : FormatCode}
    (h : format.primitive? = some .string ∨ format.primitive? = some .symbol) :
    format.isLeaf = true :=
  h.elim isLeaf_of_primitive? isLeaf_of_primitive?

end FormatCode

/-- The payload of a text, a binary or an array stands behind its length. -/
theorem payload_counted_iff {category : WidthCategory} {width : Nat} {content rest : Bytes}
    (h : category = .variable width ∨ category = .array width) :
    Payload category rest content ↔ Counted width content rest := by
  rcases h with rfl | rfl
  · exact Iff.rfl
  · exact Iff.rfl

section

variable {child : Grammar Unit} {format : FormatCode} {bounds : Limits} {n : Nat} {rest : Bytes}
  {u : Unit}

/-- A value without parts is a payload of its code with a meaning. -/
theorem nodeOf_leaf_iff (hleaf : format.isLeaf = true) :
    Grammar.nodeOf child format bounds n (format.toByte :: rest) u ↔
      n = 1 ∧ ∃ content, Payload format.category rest content ∧ format.Admits content := by
  have hcategory : format.category ≠ .described := by
    rw [Ne, FormatCode.category_eq_described_iff]
    rintro rfl
    cases hleaf
  cases hp : format.primitive? with
  | some p =>
      have hnode : Grammar.nodeOf child format = Grammar.discarded (Grammar.scalar p) := by
        simp only [Grammar.nodeOf, hp]
      rw [hnode, Grammar.discarded, Grammar.map_iff]
      constructor
      · rintro ⟨value, hscalar, -⟩
        obtain ⟨rfl, found, back, content, offset, hbytes, -, hpayload, hvalue⟩ :=
          Grammar.scalar_iff.mp hscalar
        obtain ⟨hformat, rfl⟩ := List.cons.inj hbytes
        obtain rfl := FormatCode.toByte_inj hformat
        refine ⟨rfl, content, hpayload, fun p' hp' => ?_⟩
        obtain rfl := Option.some.inj (hp.symm.trans hp')
        exact ⟨value, offset, hvalue⟩
      · rintro ⟨rfl, content, hpayload, hadmits⟩
        obtain ⟨value, offset, hvalue⟩ := hadmits p hp
        exact ⟨value, Grammar.scalar_iff.mpr
          ⟨rfl, format, rest, content, offset, rfl, hp, hpayload, hvalue⟩, rfl⟩
  | none =>
      have hnode : Grammar.nodeOf child format = Grammar.extent := by
        cases format <;> first
          | rfl
          | exact absurd hleaf (by decide)
          | cases hp
      rw [hnode]
      refine and_congr_right fun _ => ?_
      rw [Extent.sized_iff hcategory]
      refine exists_congr fun content => (and_iff_left fun p hp' => ?_).symm
      rw [hp] at hp'
      cases hp'

/-- What can be read without parts is well formed at every depth. -/
theorem wellFormed_of_leaf {limits : Limits} (hleaf : format.isLeaf = true) {content : Bytes}
    (hpayload : Payload format.category rest content) (hadmits : format.Admits content)
    (depth : Nat) : WellFormed limits depth (format.toByte :: rest) := by
  by_cases hfree : format.isFree = true
  · obtain ⟨size, hcategory, hform⟩ | ⟨width, hcategory, hform⟩ := FormatCode.forms_of_isFree hfree
    · rw [hcategory] at hpayload
      obtain ⟨rfl, hlength⟩ := hpayload
      exact .plain ⟨_, hform, rfl, hlength⟩
    · exact .sized ⟨_, hform, rest, rfl, (payload_counted_iff hcategory).mp hpayload⟩
  · -- Six codes are left, whose payloads are looked at.
    cases format with
    | boolean =>
        obtain ⟨rfl, hlength⟩ := hpayload
        exact .boolean ⟨(0x56, 1), by decide, rfl, hlength⟩
          ((FormatCode.admits_boolean_iff hlength).mp hadmits)
    | char =>
        obtain ⟨rfl, hlength⟩ := hpayload
        exact .char ⟨(0x73, 4), by decide, rfl, hlength⟩ (FormatCode.admits_char_iff.mp hadmits)
    | string8 | string32 | symbol8 | symbol32 =>
        obtain ⟨text, rfl⟩ := (FormatCode.admits_text_iff (by decide)).mp hadmits
        exact .text ⟨(_, _), by decide, rest, rfl, hpayload⟩
    | described | list0 | list8 | list32 | map8 | map32 => cases hleaf
    | _ => exact absurd rfl hfree

end

/-! ## Values with parts -/

section

variable {bs : Bytes} {child : Grammar Unit}

/-- So many well-formed parts, one behind the other. -/
theorem splits_children (hchild : Spans child) (count : Nat) :
    Splits (Grammar.discarded (Grammar.times child count)) fun bounds items _ =>
      items.length = count ∧ ∀ item ∈ items, child bounds 1 item () := by
  refine ((Splits.times hchild count).map fun _ => ()).of_iff fun bounds items _ => ⟨?_, ?_⟩
  · rintro ⟨values, ⟨hlength, hall⟩, -⟩
    refine ⟨hlength, ?_⟩
    clear hlength
    induction hall with
    | nil => intro item hitem; cases hitem
    | cons hfirst _ ih => exact List.forall_mem_cons.mpr ⟨hfirst, ih⟩
  · rintro ⟨hlength, hall⟩
    refine ⟨items.map fun _ => (), ⟨hlength, ?_⟩, rfl⟩
    rw [List.forall₂_map_right_iff, List.forall₂_same]
    exact hall

theorem exists_code_of_listOf {cap : Nat} {items : List Bytes} (h : ListOf cap items bs) :
    ∃ format rest, bs = FormatCode.toByte format :: rest ∧
      (format = .list0 ∨ format = .list8 ∨ format = .list32) := by
  rcases h with ⟨-, rfl⟩ | ⟨form, hform, rest, rfl, -⟩
  · exact ⟨.list0, [], rfl, .inl rfl⟩
  · rcases mem_listForms.mp hform with rfl | rfl
    · exact ⟨.list8, rest, rfl, .inr (.inl rfl)⟩
    · exact ⟨.list32, rest, rfl, .inr (.inr rfl)⟩

theorem exists_code_of_mapOf {cap : Nat} {items : List Bytes} (h : MapOf cap items bs) :
    ∃ format rest, bs = FormatCode.toByte format :: rest ∧ (format = .map8 ∨ format = .map32) := by
  obtain ⟨⟨form, hform, rest, rfl, -⟩, -⟩ := h
  rcases mem_mapForms.mp hform with rfl | rfl
  · exact ⟨.map8, rest, rfl, .inl rfl⟩
  · exact ⟨.map32, rest, rfl, .inr rfl⟩

end

/-! ## Every form is read -/

namespace Grammar

variable {bounds : Limits} {bs content : Bytes} {child : Grammar Unit}

/-- A well-formed value without parts is read. -/
theorem nodeWith_of_leaf {format : FormatCode} {rest : Bytes} (hleaf : format.isLeaf = true)
    (hpayload : Payload format.category rest content) (hadmits : format.Admits content) :
    nodeWith child bounds 1 (format.toByte :: rest) () :=
  ⟨format, rest, rfl, (nodeOf_leaf_iff hleaf).mpr ⟨rfl, content, hpayload, hadmits⟩⟩

/-- A payload that is not looked at is read. -/
theorem nodeWith_of_isFree {format : FormatCode} {rest : Bytes} (hfree : format.isFree = true)
    (hpayload : Payload format.category rest content) :
    nodeWith child bounds 1 (format.toByte :: rest) () :=
  nodeWith_of_leaf (FormatCode.isLeaf_of_isFree hfree) hpayload
    (FormatCode.admits_of_isFree hfree content)

theorem nodeWith_of_plain (h : Fixed plainForms content bs) : nodeWith child bounds 1 bs () := by
  obtain ⟨form, hform, rfl, hlength⟩ := h
  obtain ⟨format, hbyte, hcategory, hfree⟩ := FormatCode.exists_of_mem_plainForms hform
  have hpayload : Payload format.category content content := by
    rw [hcategory]
    exact ⟨rfl, hlength⟩
  rw [hbyte]
  exact nodeWith_of_isFree hfree hpayload

theorem nodeWith_of_boolean (h : Fixed [(0x56, 1)] content bs)
    (hvalue : content = [0x00] ∨ content = [0x01]) : nodeWith child bounds 1 bs () := by
  obtain ⟨_, hform, rfl, hlength⟩ := h
  obtain rfl := List.mem_singleton.mp hform
  have hpayload : Payload FormatCode.boolean.category content content := ⟨rfl, hlength⟩
  exact nodeWith_of_leaf rfl hpayload ((FormatCode.admits_boolean_iff hlength).mpr hvalue)

theorem nodeWith_of_char (h : Fixed [(0x73, 4)] content bs)
    (hvalue : (BigEndian.toNat content).isValidChar) : nodeWith child bounds 1 bs () := by
  obtain ⟨_, hform, rfl, hlength⟩ := h
  obtain rfl := List.mem_singleton.mp hform
  have hpayload : Payload FormatCode.char.category content content := ⟨rfl, hlength⟩
  exact nodeWith_of_leaf rfl hpayload (FormatCode.admits_char_iff.mpr hvalue)

theorem nodeWith_of_sized (h : Sized (binaryForms ++ arrayForms) content bs) :
    nodeWith child bounds 1 bs () := by
  obtain ⟨form, hform, rest, rfl, hcounted⟩ := h
  obtain ⟨format, hbyte, hcategory, hfree⟩ := FormatCode.exists_of_mem_sizedForms hform
  rw [hbyte]
  exact nodeWith_of_isFree hfree ((payload_counted_iff hcategory).mpr hcounted)

theorem nodeWith_of_text {text : String}
    (h : Sized (stringForms ++ symbolForms) (Utf8.encode text) bs) :
    nodeWith child bounds 1 bs () := by
  obtain ⟨form, hform, rest, rfl, hcounted⟩ := h
  obtain ⟨format, hbyte, hcategory, htype⟩ := FormatCode.exists_of_mem_textForms hform
  rw [hbyte]
  exact nodeWith_of_leaf (FormatCode.isLeaf_of_text htype)
    ((payload_counted_iff (.inl hcategory)).mpr hcounted)
    ((FormatCode.admits_text_iff htype).mpr ⟨text, rfl⟩)

theorem nodeWith_of_list (hchild : Spans child) (hroom : 0 < bounds.maxDepth) {items : List Bytes}
    (h : ListOf bounds.maxCollectionLength items bs)
    (hitems : ∀ item ∈ items, child bounds.inner 1 item ()) : nodeWith child bounds 1 bs () := by
  have hlist : listed (fun count => discarded (times child count)) bounds 1 bs () :=
    (listed_iff fun count => splits_children hchild count).mpr
      ⟨rfl, hroom, items, h, rfl, hitems⟩
  obtain ⟨format, rest, rfl, rfl | rfl | rfl⟩ := exists_code_of_listOf h
  · exact ⟨.list0, rest, rfl, hlist⟩
  · exact ⟨.list8, rest, rfl, hlist⟩
  · exact ⟨.list32, rest, rfl, hlist⟩

theorem nodeWith_of_map (hchild : Spans child) (hroom : 0 < bounds.maxDepth) {items : List Bytes}
    (h : MapOf bounds.maxCollectionLength items bs)
    (hitems : ∀ item ∈ items, child bounds.inner 1 item ()) : nodeWith child bounds 1 bs () := by
  -- The number of entries is half of the count, which is even.
  have heven : items.length / 2 * 2 = items.length :=
    Nat.div_mul_cancel (Nat.dvd_of_mod_eq_zero h.2)
  have hmap : mapped (fun entries => discarded (times child (entries * 2))) bounds 1 bs () :=
    (mapped_iff fun entries => splits_children hchild (entries * 2)).mpr
      ⟨rfl, hroom, items, h, heven.symm, hitems⟩
  obtain ⟨format, rest, rfl, rfl | rfl⟩ := exists_code_of_mapOf h
  · exact ⟨.map8, rest, rfl, hmap⟩
  · exact ⟨.map32, rest, rfl, hmap⟩

theorem nodeWith_of_described (hroom : 0 < bounds.maxDepth) {raw : RawDescriptor} {body : Bytes}
    (h : Described raw body bs) (hbody : child bounds.inner 1 body ()) :
    nodeWith child bounds 1 bs () := by
  have hdescribed : described (fun _ => child) bounds 1 bs () :=
    described_written_iff.mpr ⟨rfl, hroom, raw, body, h, hbody⟩
  obtain ⟨descriptor, rfl, -⟩ := h
  exact ⟨.described, _, rfl, hdescribed⟩

end Grammar

/-! ## Nothing else is read -/

section

variable {limits bounds : Limits} {depth n : Nat} {bs : Bytes} {child : Grammar Unit}

/-- A value is well formed if its parts are, one level further down. -/
theorem nodeWith_iff (hchild : Spans child)
    (hbounds : bounds = ⟨limits.maxDepth - depth, limits.maxCollectionLength⟩)
    (hparts : 0 < bounds.maxDepth → ∀ item,
      child bounds.inner 1 item () ↔ WellFormed limits (depth + 1) item) :
    Grammar.nodeWith child bounds n bs () ↔ n = 1 ∧ WellFormed limits depth bs := by
  have hcap : limits.maxCollectionLength = bounds.maxCollectionLength := by rw [hbounds]
  have hdepth : depth < limits.maxDepth ↔ 0 < bounds.maxDepth := by
    rw [hbounds]
    exact Nat.sub_pos_iff_lt.symm
  constructor
  · rintro ⟨format, rest, rfl, hnode⟩
    by_cases hleaf : format.isLeaf = true
    · obtain ⟨rfl, content, hpayload, hadmits⟩ := (nodeOf_leaf_iff hleaf).mp hnode
      exact ⟨rfl, wellFormed_of_leaf hleaf hpayload hadmits depth⟩
    · -- The codes of containers and of described values are left.
      cases format with
      | described =>
          obtain ⟨rfl, hroom, raw, body, hbytes, hbody⟩ := Grammar.described_written_iff.mp hnode
          exact ⟨rfl, .described (hdepth.mpr hroom) hbytes ((hparts hroom body).mp hbody)⟩
      | list0 | list8 | list32 =>
          obtain ⟨rfl, hroom, items, hbytes, -, hitems⟩ :=
            (Grammar.listed_iff fun count => splits_children hchild count).mp hnode
          rw [← hcap] at hbytes
          exact ⟨rfl, .list (hdepth.mpr hroom) hbytes fun item hitem =>
            (hparts hroom item).mp (hitems item hitem)⟩
      | map8 | map32 =>
          obtain ⟨rfl, hroom, items, hbytes, -, hitems⟩ :=
            (Grammar.mapped_iff fun entries => splits_children hchild (entries * 2)).mp hnode
          rw [← hcap] at hbytes
          exact ⟨rfl, .map (hdepth.mpr hroom) hbytes fun item hitem =>
            (hparts hroom item).mp (hitems item hitem)⟩
      | _ => exact absurd rfl hleaf
  · rintro ⟨rfl, h⟩
    cases h with
    | plain hbytes => exact Grammar.nodeWith_of_plain hbytes
    | boolean hbytes hvalue => exact Grammar.nodeWith_of_boolean hbytes hvalue
    | char hbytes hvalue => exact Grammar.nodeWith_of_char hbytes hvalue
    | sized hbytes => exact Grammar.nodeWith_of_sized hbytes
    | text hbytes => exact Grammar.nodeWith_of_text hbytes
    | list hroom hbytes hitems =>
        have hroom := hdepth.mp hroom
        rw [hcap] at hbytes
        exact Grammar.nodeWith_of_list hchild hroom hbytes fun item hitem =>
          (hparts hroom item).mpr (hitems item hitem)
    | map hroom hbytes hitems =>
        have hroom := hdepth.mp hroom
        rw [hcap] at hbytes
        exact Grammar.nodeWith_of_map hchild hroom hbytes fun item hitem =>
          (hparts hroom item).mpr (hitems item hitem)
    | described hroom hbytes hbody =>
        have hroom := hdepth.mp hroom
        exact Grammar.nodeWith_of_described hroom hbytes ((hparts hroom _).mpr hbody)

/-- Outlines read the well-formed values, by induction on the room. -/
theorem node_iff {room : Nat} (hroom : limits.maxDepth - depth = room) :
    Grammar.node room ⟨room, limits.maxCollectionLength⟩ n bs () ↔
      n = 1 ∧ WellFormed limits depth bs := by
  induction room generalizing depth n bs with
  | zero =>
      refine nodeWith_iff Spans.fail (by rw [hroom]) fun h => ?_
      exact absurd h (Nat.lt_irrefl 0)
  | succ room ih =>
      refine nodeWith_iff (Spans.node room) (by rw [hroom]) fun _ item => ?_
      have hinner : Grammar.node room ⟨room, limits.maxCollectionLength⟩ 1 item () ↔
          1 = 1 ∧ WellFormed limits (depth + 1) item := ih (by omega)
      exact hinner.trans (and_iff_right rfl)

end

/-- Every well-formed value starts with a format code. -/
theorem WellFormed.exists_code {limits : Limits} {depth : Nat} {bs : Bytes}
    (h : WellFormed limits depth bs) :
    ∃ format rest, bs = FormatCode.toByte format :: rest := by
  have hnode := (node_iff rfl).mpr ⟨(rfl : 1 = 1), h⟩
  exact (Spans.node _ hnode).2.exists_code

end AmqpEnvelope
