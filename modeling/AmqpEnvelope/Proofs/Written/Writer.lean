import AmqpEnvelope.Proofs.Framing.Root
import AmqpEnvelope.Proofs.Written.Extent
import AmqpEnvelope.Proofs.Written.Typed

/-!
# A writer

One way of writing values: the short form of a list or a byte string where its numbers fit
one byte, the long form elsewhere, numbers in their full width, and names with the namespace.
Whatever it writes is a written form, as long as the numbers in it fit four bytes.

The size of a list covers all that stands in it.  So what has to be known of the numbers is
known if it is known of the outermost list (`Fits`).
-/

namespace AmqpEnvelope

open Cursor Written

/-! ## Values -/

namespace Writing

/-- Bytes behind their length. -/
def sized (short long : UInt8) (content : Bytes) : Bytes :=
  if content.length ≤ 255 then short :: (BigEndian.ofNat 1 content.length ++ content)
  else long :: (BigEndian.ofNat 4 content.length ++ content)

def null : Bytes := [0x40]

def int (value : Int32) : Bytes := 0x71 :: BigEndian.ofNat 4 value.toUInt32.toNat

def ulong (value : UInt64) : Bytes := 0x80 :: BigEndian.ofNat 8 value.toNat

def binary (content : Bytes) : Bytes := sized 0xa0 0xb0 content

def string (text : String) : Bytes := sized 0xa1 0xb1 (Utf8.encode text)

def symbol (text : String) : Bytes := sized 0xa3 0xb3 (Utf8.encode text)

/-- A list of values that are written already. -/
def list (items : List Bytes) : Bytes :=
  if items = [] then [0x45]
  else if items.flatten.length + 1 ≤ 255 ∧ items.length ≤ 255 then
    0xc0 :: (BigEndian.ofNat 1 (items.flatten.length + 1) ++
      (BigEndian.ofNat 1 items.length ++ items.flatten))
  else
    0xd0 :: (BigEndian.ofNat 4 (items.flatten.length + 4) ++
      (BigEndian.ofNat 4 items.length ++ items.flatten))

def described (descriptor body : Bytes) : Bytes := 0x00 :: (descriptor ++ body)

def composite (name : String) (fields : List Bytes) : Bytes := described (symbol name) (list fields)

end Writing

/-! ## Framing -/

namespace Writing

def preamble (body : Bytes) : Bytes := streamMagic ++ 0x00 :: body

/-- What stands in an envelope: the object, a schema and no transforms. -/
def parts (object : Bytes) : List Bytes := [object, list [list [string "schema"]], list []]

def envelope (object : Bytes) : Bytes :=
  described (ulong 0xc562000000000001) (list (parts object))

/-- What is put around an object. -/
structure Wrapping where
  preamble : Bool
  envelope : Bool
deriving DecidableEq, Repr

/-- The object, with an envelope around it or a preamble in front, or both. -/
def Wrapping.write (wrapping : Wrapping) (object : Bytes) : Bytes :=
  let body := if wrapping.envelope then Writing.envelope object else object
  if wrapping.preamble then Writing.preamble body else body

end Writing

/-! ## Numbers -/

namespace BigEndian

theorem toInt_ofNat_toUInt32 (value : Int32) :
    toInt (ofNat 4 value.toUInt32.toNat) = value.toInt := by
  have hlt : value.toUInt32.toNat < span 4 := value.toUInt32.toNat_lt
  have hspan : span 4 = 2 ^ 32 := rfl
  rw [toInt, toNat_ofNat_of_lt hlt, length_ofNat, hspan]
  exact (BitVec.toInt_eq_toNat_cond value.toBitVec).symm

end BigEndian

/-! ## Sizes -/

/-- The size of a list of these values can be written. -/
def Fits (items : List Bytes) : Prop := items.flatten.length + 4 < BigEndian.span 4

namespace Fits

variable {items fields : List Bytes} {item content : Bytes} {name : String}

theorem length_le_of_mem (hitem : item ∈ items) : item.length ≤ items.flatten.length := by
  obtain ⟨front, back, rfl⟩ := List.append_of_mem hitem
  simp only [List.flatten_append, List.flatten_cons, List.length_append]
  omega

theorem length_flatten_le (items : List Bytes) :
    items.flatten.length ≤ (Writing.list items).length := by
  unfold Writing.list
  split
  next hnil =>
    rw [hnil]
    exact Nat.zero_le _
  next =>
    split
    all_goals
      simp only [List.length_cons, List.length_append]
      omega

theorem length_content_le (short long : UInt8) (content : Bytes) :
    content.length ≤ (Writing.sized short long content).length := by
  unfold Writing.sized
  split
  all_goals
    simp only [List.length_cons, List.length_append]
    omega

theorem of_length_le (h : Fits items) (hle : fields.flatten.length ≤ items.flatten.length) :
    Fits fields :=
  Nat.lt_of_le_of_lt (Nat.add_le_add_right hle 4) h

/-- The values in a list that is one of the values. -/
theorem of_list (h : Fits items) (hitem : Writing.list fields ∈ items) : Fits fields := by
  have hle := length_le_of_mem hitem
  have hfields := length_flatten_le fields
  exact h.of_length_le (by omega)

/-- The fields of a composite that is one of the values. -/
theorem of_composite (h : Fits items) (hitem : Writing.composite name fields ∈ items) :
    Fits fields := by
  have hle := length_le_of_mem hitem
  have hfields := length_flatten_le fields
  simp only [Writing.composite, Writing.described, List.length_cons, List.length_append] at hle
  exact h.of_length_le (by omega)

theorem of_symbol (h : Fits items) (hitem : Writing.composite name fields ∈ items) :
    (Utf8.encode name).length < BigEndian.span 4 := by
  have hle := length_le_of_mem hitem
  have hname := length_content_le 0xa3 0xb3 (Utf8.encode name)
  simp only [Writing.composite, Writing.described, Writing.symbol, List.length_cons,
    List.length_append] at hle
  unfold Fits at h
  omega

theorem of_binary (h : Fits items) (hitem : Writing.binary content ∈ items) :
    content.length < BigEndian.span 4 := by
  have hle := length_le_of_mem hitem
  have hcontent := length_content_le 0xa0 0xb0 content
  simp only [Writing.binary] at hle
  unfold Fits at h
  omega

theorem of_described_binary {descriptor : Bytes} (h : Fits items)
    (hitem : Writing.described descriptor (Writing.binary content) ∈ items) :
    content.length < BigEndian.span 4 := by
  have hle := length_le_of_mem hitem
  have hcontent := length_content_le 0xa0 0xb0 content
  simp only [Writing.described, Writing.binary, List.length_cons, List.length_append] at hle
  unfold Fits at h
  omega

end Fits

/-! ## Written forms -/

namespace Writing

variable {cap : Nat} {items : List Bytes} {name : String} {content : Bytes}

theorem binary_ne_nil (content : Bytes) : binary content ≠ [] := by
  unfold binary sized
  split
  all_goals exact List.cons_ne_nil _ _

theorem int_ne_nil (value : Int32) : int value ≠ [] := List.cons_ne_nil _ _

theorem composite_ne_nil (name : String) (fields : List Bytes) : composite name fields ≠ [] :=
  List.cons_ne_nil _ _

theorem list_ne_nil (items : List Bytes) : list items ≠ [] := by
  unfold list
  split
  · exact List.cons_ne_nil _ _
  · split
    all_goals exact List.cons_ne_nil _ _

theorem counted_ofNat {width : Nat} (hlength : content.length < BigEndian.span width) :
    Counted width content (BigEndian.ofNat width content.length ++ content) :=
  ⟨_, rfl, BigEndian.length_ofNat _ _, BigEndian.toNat_ofNat_of_lt hlength⟩

theorem sized_form {short long : UInt8} (hlength : content.length < BigEndian.span 4) :
    Sized [(short, 1), (long, 4)] content (sized short long content) := by
  unfold sized
  split
  next hshort =>
    have hfits : content.length < BigEndian.span 1 := Nat.lt_succ_of_le hshort
    exact ⟨(short, 1), List.mem_cons_self, _, rfl, counted_ofNat hfits⟩
  next =>
    have hfits : content.length < BigEndian.span 4 := hlength
    exact ⟨(long, 4), List.mem_cons_of_mem _ List.mem_cons_self, _, rfl, counted_ofNat hfits⟩

theorem binary_form (hlength : content.length < BigEndian.span 4) :
    BinaryOf content (binary content) :=
  sized_form hlength

theorem symbol_form (hlength : (Utf8.encode name).length < BigEndian.span 4) :
    SymbolOf name (symbol name) :=
  sized_form hlength

theorem int_form (value : Int32) : IntOf value (int value) :=
  ⟨_, ⟨(0x71, 4), by decide, rfl, BigEndian.length_ofNat _ _⟩, BigEndian.toInt_ofNat_toUInt32 value⟩

theorem ulong_form (value : UInt64) : UlongOf value (ulong value) :=
  ⟨_, ⟨(0x80, 8), by decide, rfl, BigEndian.length_ofNat _ _⟩,
    BigEndian.toNat_ofNat_of_lt value.toNat_lt⟩

/-- Behind the code of a list that is not empty stand its size, its count and its values. -/
theorem list_counted (hfits : Fits items) (hne : items ≠ []) :
    ∃ form ∈ listForms, ∃ rest, list items = form.1 :: rest ∧
      Counted form.2 (BigEndian.ofNat form.2 items.length ++ items.flatten) rest ∧
        (items.length < BigEndian.span 4 → items.length < BigEndian.span form.2) := by
  have hsize : ∀ width, (BigEndian.ofNat width items.length ++ items.flatten).length =
      items.flatten.length + width := by
    intro width
    rw [List.length_append, BigEndian.length_ofNat, Nat.add_comm]
  rw [list, if_neg hne]
  split
  next hshort =>
    refine ⟨(0xc0, 1), List.mem_cons_self, _, rfl, ?_, fun _ => Nat.lt_succ_of_le hshort.2⟩
    rw [← hsize]
    exact counted_ofNat (by rw [hsize]; exact Nat.lt_succ_of_le hshort.1)
  next =>
    refine ⟨(0xd0, 4), List.mem_cons_of_mem _ List.mem_cons_self, _, rfl, ?_, id⟩
    rw [← hsize]
    exact counted_ofNat (by rw [hsize]; exact hfits)

theorem list_form (hfits : Fits items) (hitems : ∀ item ∈ items, item ≠ [])
    (hcap : items.length ≤ cap) : ListOf cap items (list items) := by
  by_cases hne : items = []
  · exact .inl ⟨hne, if_pos hne⟩
  · obtain ⟨form, hform, rest, hlist, hcounted, hspan⟩ := list_counted hfits hne
    -- Every value takes a byte, so the count is bounded by the size.
    have hcount : items.length < BigEndian.span 4 := by
      have hle := length_le_length_flatten hitems
      unfold Fits at hfits
      omega
    exact .inr ⟨form, hform, rest, hlist, hcap, _, BigEndian.length_ofNat _ _,
      BigEndian.toNat_ofNat_of_lt (hspan hcount), hcounted⟩

theorem list_extent (hfits : Fits items) (room : Nat) : Extent room (list items) := by
  by_cases hne : items = []
  · rw [list, if_pos hne]
    exact extent_empty_list room
  · obtain ⟨form, hform, rest, hlist, hcounted, -⟩ := list_counted hfits hne
    rw [hlist]
    exact extent_of_listForms hform hcounted room

theorem composite_form {names : List String} (hname : name ∈ names)
    (hlength : (Utf8.encode name).length < BigEndian.span 4) (hfits : Fits items)
    (hitems : ∀ item ∈ items, item ≠ []) (hcap : items.length ≤ cap) :
    Composite cap names items (composite name items) :=
  ⟨name, hname, list items, ⟨symbol name, rfl, .symbol (symbol_form hlength)⟩,
    list_form hfits hitems hcap⟩

/-- A composite of nothing but bytes. -/
theorem binary_composite_form {outer : List Bytes} {names : List String} (houter : Fits outer)
    (hmem : composite name [binary content] ∈ outer) (hname : name ∈ names) (hcap : 1 ≤ cap) :
    BinaryOf content (binary content) ∧
      Composite cap names [binary content] (composite name [binary content]) := by
  have hfields : Fits [binary content] := houter.of_composite hmem
  refine ⟨binary_form (hfields.of_binary List.mem_cons_self),
    composite_form hname (houter.of_symbol hmem) hfields ?_ hcap⟩
  exact List.forall_mem_singleton.mpr (binary_ne_nil _)

/-- A list of values that are each written in their form. -/
theorem list_with_form {α : Type} {write : α → Bytes} {form : α → Bytes → Prop} {values : List α}
    (hfits : Fits (values.map write)) (hform : ∀ value ∈ values, form value (write value))
    (hne : ∀ value ∈ values, write value ≠ []) (hcap : values.length ≤ cap) :
    ListWith cap form values (list (values.map write)) := by
  refine ⟨values.map write, ?_, list_form hfits ?_ (by rwa [List.length_map])⟩
  · rw [List.forall₂_map_right_iff, List.forall₂_same]
    exact hform
  · intro item hitem
    obtain ⟨value, hvalue, rfl⟩ := List.mem_map.mp hitem
    exact hne value hvalue

/-! ## Framing -/

theorem parts_ne_nil {object : Bytes} (hobject : object ≠ []) :
    ∀ part ∈ parts object, part ≠ [] := by
  rw [parts, List.forall_mem_cons, List.forall_mem_cons, List.forall_mem_singleton]
  exact ⟨hobject, list_ne_nil _, list_ne_nil _⟩

theorem envelope_form {object : Bytes} (hfits : Fits (parts object)) (hobject : object ≠ [])
    (hcap : 3 ≤ cap) : EnvelopeOf cap (parts object) (envelope object) :=
  ⟨_, ⟨_, rfl, .code (ulong_form _)⟩, list_form hfits (parts_ne_nil hobject) hcap⟩

theorem parts_extent {object : Bytes} {room : Nat} (hfits : Fits (parts object))
    (hobject : Extent room object) : ∀ part ∈ parts object, Extent room part := by
  have hschema : Fits [list [string "schema"]] :=
    hfits.of_list (List.mem_cons_of_mem _ List.mem_cons_self)
  have htransforms : Fits ([] : List Bytes) := by
    unfold Fits
    decide
  rw [parts, List.forall_mem_cons, List.forall_mem_cons, List.forall_mem_singleton]
  exact ⟨hobject, list_extent hschema room, list_extent htransforms room⟩

/-- Whatever is put around an object, the object is in it, and all that is in the envelope. -/
theorem Wrapping.length_le (wrapping : Wrapping) (object : Bytes) :
    object.length ≤ (wrapping.write object).length ∧ (wrapping.envelope = true →
      (parts object).flatten.length ≤ (wrapping.write object).length) := by
  have hbody : ∀ body : Bytes, body.length ≤
      (if wrapping.preamble then Writing.preamble body else body).length := by
    intro body
    split
    · simp only [Writing.preamble, List.length_append, List.length_cons]
      omega
    · exact Nat.le_refl _
  have hparts : (parts object).flatten.length ≤ (Writing.envelope object).length := by
    have hlist := Fits.length_flatten_le (parts object)
    simp only [Writing.envelope, described, List.length_cons, List.length_append]
    omega
  have hobject : object.length ≤ (parts object).flatten.length :=
    Fits.length_le_of_mem List.mem_cons_self
  unfold Wrapping.write
  cases wrapping.envelope with
  | false => exact ⟨hbody object, nofun⟩
  | true =>
      have hwhole := Nat.le_trans hparts (hbody (Writing.envelope object))
      exact ⟨Nat.le_trans hobject hwhole, fun _ => hwhole⟩

theorem Wrapping.prefaced (wrapping : Wrapping) (object : Bytes) :
    Prefaced (if wrapping.envelope then Writing.envelope object else object)
      (wrapping.write object) := by
  unfold Wrapping.write
  cases wrapping.preamble with
  | false => exact .inl rfl
  | true => exact .inr rfl

section

variable {α : Type} {limits : Limits} {framing : Framing} {reader : Decoding α} {g : Grammar α}
  {object : Bytes} {value : α}

/-- An object that a reader accepts, with a little room to spare, is accepted whatever is put
around it. -/
theorem Wrapping.exists_rootValue (hg : Spans g) (hshows : Shows g)
    (hrequire : framing.requirePreamble = false) (hunwrap : framing.unwrapEnvelope = true)
    (hdepth : 2 ≤ limits.maxDepth) (hcap : 3 ≤ limits.maxCollectionLength)
    (hreads : ∀ depth, depth ≤ limits.maxDepth →
      ReadsRoot ⟨depth, limits.maxCollectionLength⟩ reader g)
    (hvalue : ∀ depth, limits.maxDepth - 2 ≤ depth →
      g ⟨depth, limits.maxCollectionLength⟩ 1 object value)
    (hplain : ¬ Headed envelopeDescriptor object) (wrapping : Wrapping)
    (hfits : wrapping.envelope = true → Fits (parts object)) :
    ∃ c, rootValue framing reader (Cursor.start (wrapping.write object) limits) = .ok value c := by
  have hprefaced := wrapping.prefaced object
  have hinner := hvalue _ (Nat.le_refl _)
  -- An envelope takes two levels, so the object is read with two less than without it.
  have hwhole : g limits 1 object value := hvalue limits.maxDepth (Nat.sub_le _ _)
  obtain ⟨-, hextent⟩ := hg hinner
  obtain ⟨format, rest, hcode⟩ := hextent.exists_code
  cases henvelope : wrapping.envelope with
  | false =>
      rw [henvelope] at hprefaced
      have hstem : ¬ magicStem <+: object := hcode ▸ not_prefix_of_code rfl
      exact (exists_rootValue_iff hprefaced hstem hrequire fun c hc =>
        hc.exists_framed_iff_of_bare hg hshows (hreads _ (Nat.le_refl _)) fun _ => hplain).mpr
          hwhole
  | true =>
      rw [henvelope] at hprefaced
      have hmarker : (Writing.envelope object).head? = some FormatCode.described.toByte := rfl
      exact (exists_rootValue_iff hprefaced (not_prefix_of_code hmarker) hrequire fun c hc =>
        hc.exists_framed_iff_of_envelope hg (hreads _ (Nat.sub_le _ _)) hunwrap
          (envelope_form (hfits henvelope) hextent.ne_nil hcap)
          (parts_extent (hfits henvelope) hextent) hdepth).mpr hinner

end

end Writing

end AmqpEnvelope
