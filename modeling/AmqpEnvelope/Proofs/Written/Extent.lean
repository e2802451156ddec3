import AmqpEnvelope.Proofs.Text.Symbol
import AmqpEnvelope.Proofs.Written.Row

/-!
# Extents of written forms

Whatever is written in one of the forms is one value; a list is one whatever stands in it.
Only described values take room.

Since the first byte says which form it is, nothing can be written in two ways at once: what
the bytes of a form hold is determined by them.
-/

namespace AmqpEnvelope

namespace Written

variable {p : Primitive} {forms : Forms} {content bytes : Bytes} {cap room : Nat}

theorem Spells.extent_of_sized (hspells : Spells p .variable forms)
    (h : Sized forms content bytes) (room : Nat) : Extent room bytes := by
  obtain ⟨format, back, rfl, hprimitive, hpayload⟩ := hspells.sized_iff.mpr h
  exact .sized (FormatCode.category_ne_described hprimitive) hpayload

theorem Spells.extent_of_fixed (hspells : Spells p .fixed forms)
    (h : Fixed forms content bytes) (room : Nat) : Extent room bytes := by
  obtain ⟨format, back, rfl, hprimitive, hpayload⟩ := hspells.fixed_iff.mpr h
  exact .sized (FormatCode.category_ne_described hprimitive) hpayload

theorem BinaryOf.extent (h : BinaryOf content bytes) (room : Nat) : Extent room bytes :=
  spells_binary.extent_of_sized h room

theorem IntOf.extent {value : Int32} (h : IntOf value bytes) (room : Nat) : Extent room bytes := by
  obtain ⟨content, hfixed, -⟩ := h
  exact spells_int.extent_of_fixed hfixed room

theorem DescriptorOf.extent {raw : RawDescriptor} (h : DescriptorOf raw bytes) (room : Nat) :
    Extent room bytes := by
  cases h with
  | symbol h => exact spells_symbol.extent_of_sized h room
  | code h =>
      obtain ⟨content, hfixed, -⟩ := h
      exact spells_ulong.extent_of_fixed hfixed room

theorem Described.extent {raw : RawDescriptor} {body : Bytes} (h : Described raw body bytes)
    (hbody : Extent room body) : Extent (room + 1) bytes := by
  obtain ⟨descriptor, rfl, hdescriptor⟩ := h
  exact .described (hdescriptor.extent room) hbody

/-- The size behind the code of a list says where it ends, whatever stands in it. -/
theorem extent_of_listForms {form : UInt8 × Nat} (hform : form ∈ listForms)
    (hcounted : Counted form.2 content bytes) (room : Nat) : Extent room (form.1 :: bytes) := by
  rcases mem_listForms.mp hform with rfl | rfl
  · have hpayload : Payload FormatCode.list8.category bytes content := hcounted
    exact .sized (by decide) hpayload
  · have hpayload : Payload FormatCode.list32.category bytes content := hcounted
    exact .sized (by decide) hpayload

theorem extent_empty_list (room : Nat) : Extent room [0x45] := by
  have hempty : Payload FormatCode.list0.category [] [] := ⟨rfl, rfl⟩
  exact .sized (by decide) hempty

theorem ListOf.extent {items : List Bytes} (h : ListOf cap items bytes) (room : Nat) :
    Extent room bytes := by
  rcases h with ⟨-, rfl⟩ | ⟨form, hform, rest, rfl, -, count, -, -, hcounted⟩
  · exact extent_empty_list room
  · exact extent_of_listForms hform hcounted room

theorem Composite.extent {names : List String} {fields : List Bytes}
    (h : Composite cap names fields bytes) (room : Nat) : Extent (room + 1) bytes := by
  obtain ⟨name, -, list, hdescribed, hlist⟩ := h
  exact hdescribed.extent (hlist.extent room)

/-! ## What a form holds -/

section

variable {forms forms' : Forms} {content content' bytes : Bytes} {cap width : Nat}
  {items items' : List Bytes}

theorem Fixed.mono (h : Fixed forms content bytes) (hforms : ∀ form ∈ forms, form ∈ forms') :
    Fixed forms' content bytes := by
  obtain ⟨form, hform, hbytes⟩ := h
  exact ⟨form, hforms form hform, hbytes⟩

theorem Sized.mono (h : Sized forms content bytes) (hforms : ∀ form ∈ forms, form ∈ forms') :
    Sized forms' content bytes := by
  obtain ⟨form, hform, hbytes⟩ := h
  exact ⟨form, hforms form hform, hbytes⟩

theorem Counted.unique (h : Counted width content bytes) (h' : Counted width content' bytes) :
    content = content' := by
  obtain ⟨size, rfl, hwidth, -⟩ := h
  obtain ⟨size', hbytes, hwidth', -⟩ := h'
  exact (List.append_inj hbytes (hwidth.trans hwidth'.symm)).2

theorem Fixed.unique (h : Fixed forms content bytes) (h' : Fixed forms' content' bytes) :
    content = content' := by
  obtain ⟨form, -, rfl, -⟩ := h
  obtain ⟨form', -, hbytes, -⟩ := h'
  exact (List.cons.inj hbytes).2

/-- Forms with different first bytes leave no choice. -/
theorem Sized.unique (hforms : ∀ form ∈ forms, ∀ form' ∈ forms, form.1 = form'.1 → form = form')
    (h : Sized forms content bytes) (h' : Sized forms content' bytes) : content = content' := by
  obtain ⟨form, hform, rest, rfl, hcounted⟩ := h
  obtain ⟨form', hform', rest', hbytes, hcounted'⟩ := h'
  obtain ⟨hfirst, rfl⟩ := List.cons.inj hbytes
  obtain rfl := hforms form hform form' hform' hfirst
  exact hcounted.unique hcounted'

theorem Collected.flatten_unique
    (hforms : ∀ form ∈ forms, ∀ form' ∈ forms, form.1 = form'.1 → form = form')
    (h : Collected forms cap items bytes) (h' : Collected forms cap items' bytes) :
    items.flatten = items'.flatten := by
  obtain ⟨form, hform, rest, rfl, -, count, hwidth, -, hcounted⟩ := h
  obtain ⟨form', hform', rest', hbytes, -, count', hwidth', -, hcounted'⟩ := h'
  obtain ⟨hfirst, rfl⟩ := List.cons.inj hbytes
  obtain rfl := hforms form hform form' hform' hfirst
  exact (List.append_inj (hcounted.unique hcounted') (hwidth.trans hwidth'.symm)).2

theorem ListOf.flatten_unique (h : ListOf cap items bytes) (h' : ListOf cap items' bytes) :
    items.flatten = items'.flatten := by
  have hnonempty : ∀ {items}, ¬ Collected listForms cap items [0x45] := by
    rintro items ⟨form, hform, rest, hbytes, -⟩
    rcases mem_listForms.mp hform with rfl | rfl <;> cases (List.cons.inj hbytes).1
  rcases h with ⟨rfl, rfl⟩ | h
  · rcases h' with ⟨rfl, -⟩ | h'
    · rfl
    · exact absurd h' hnonempty
  · rcases h' with ⟨rfl, rfl⟩ | h'
    · exact absurd h hnonempty
    · exact h.flatten_unique (by decide) h'

theorem SymbolOf.unique {text text' : String} (h : SymbolOf text bytes)
    (h' : SymbolOf text' bytes) : text = text' :=
  Utf8.encode_injective (Sized.unique (by decide) h h')

theorem SymbolOf.not_ulongOf {text : String} {value : UInt64} (h : SymbolOf text bytes) :
    ¬ UlongOf value bytes := by
  rintro ⟨content, ⟨form', hform', hbytes, -⟩, -⟩
  obtain ⟨form, hform, rest, rfl, -⟩ := h
  have hdistinct : ∀ form ∈ symbolForms, ∀ form' ∈ ulongForms, form.1 ≠ form'.1 := by decide
  exact hdistinct form hform form' hform' (List.cons.inj hbytes).1

/-- A descriptor is read in one way only. -/
theorem DescriptorOf.unique {raw raw' : RawDescriptor} (h : DescriptorOf raw bytes)
    (h' : DescriptorOf raw' bytes) : raw = raw' := by
  cases h with
  | symbol h =>
      cases h' with
      | symbol h' => rw [h.unique h']
      | code h' => exact absurd h' h.not_ulongOf
  | code h =>
      cases h' with
      | symbol h' => exact absurd h h'.not_ulongOf
      | code h' =>
          obtain ⟨content, hfixed, hvalue⟩ := h
          obtain ⟨content', hfixed', hvalue'⟩ := h'
          obtain rfl := hfixed.unique hfixed'
          rw [UInt64.toNat_inj.mp (hvalue.symm.trans hvalue')]

theorem Described.inj {raw raw' : RawDescriptor} {body body' : Bytes}
    (h : Described raw body bytes) (h' : Described raw' body' bytes) :
    raw = raw' ∧ body = body' := by
  obtain ⟨head, rfl, hraw⟩ := h
  obtain ⟨head', hbytes, hraw'⟩ := h'
  have happend : head ++ body = head' ++ body' := (List.cons.inj hbytes).2
  obtain rfl := (hraw.extent 0).unique (hraw'.extent 0) happend
  exact ⟨hraw.unique hraw', List.append_cancel_left happend⟩

end

end Written

end AmqpEnvelope
