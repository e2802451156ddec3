import AmqpEnvelope.Proofs.Written.Form
import Mathlib.Data.List.Forall2

/-!
# Elements in a row

Grammars of several elements, one behind the other, as a relation between the encodings of
the elements and the value that they stand for (`Splits`).  Cut up in this way, the bytes
inside a list are its elements, and the grammars of lists, maps and described values say
how these are written (`Grammar.listed_iff`, `Grammar.mapped_iff`,
`Grammar.described_written_iff`).
-/

namespace AmqpEnvelope

open Written

/-- The encodings of so many elements, one behind the other, and what they stand for. -/
structure Splits {α : Type} (g : Grammar α) (rows : Limits → List Bytes → α → Prop) : Prop where
  iff : ∀ {bounds : Limits} {n : Nat} {bs : Bytes} {value : α}, g bounds n bs value ↔
    ∃ items : List Bytes, bs = items.flatten ∧ items.length = n ∧ rows bounds items value
  ne_nil : ∀ {bounds : Limits} {items : List Bytes} {value : α}, rows bounds items value →
    ∀ item ∈ items, item ≠ []

namespace Splits

variable {α β : Type} {g : Grammar α} {rows : Limits → List Bytes → α → Prop}

theorem pure (a : α) : Splits (pure a) fun _ items value => items = [] ∧ value = a where
  iff := by
    intro bounds n bs value
    constructor
    · rintro ⟨rfl, rfl, rfl⟩
      exact ⟨[], rfl, rfl, rfl, rfl⟩
    · rintro ⟨_, rfl, rfl, rfl, rfl⟩
      exact ⟨rfl, rfl, rfl⟩
  ne_nil := by
    rintro _ _ _ ⟨rfl, -⟩ item hitem
    cases hitem

theorem fail : Splits (Grammar.fail : Grammar α) fun _ _ _ => False where
  iff := ⟨False.elim, fun ⟨_, _, _, h⟩ => h⟩
  ne_nil := False.elim

theorem of_iff {rows' : Limits → List Bytes → α → Prop} (h : Splits g rows)
    (hrows : ∀ bounds items value, rows bounds items value ↔ rows' bounds items value) :
    Splits g rows' := by
  obtain rfl : rows = rows' := by
    funext bounds items value
    exact propext (hrows bounds items value)
  exact h

theorem map (f : α → β) (h : Splits g rows) :
    Splits (f <$> g) fun bounds items value => ∃ a, rows bounds items a ∧ value = f a where
  iff := by
    intro bounds n bs value
    rw [Grammar.map_iff]
    constructor
    · rintro ⟨a, hg, rfl⟩
      obtain ⟨items, hbs, hlength, hrows⟩ := h.iff.mp hg
      exact ⟨items, hbs, hlength, a, hrows, rfl⟩
    · rintro ⟨items, hbs, hlength, a, hrows, rfl⟩
      exact ⟨a, h.iff.mpr ⟨items, hbs, hlength, hrows⟩, rfl⟩
  ne_nil := fun ⟨_, hrows, _⟩ => h.ne_nil hrows

/-- One element, and what follows it. -/
theorem cons {next : α → Grammar β} {rows : α → Limits → List Bytes → β → Prop} (hg : Spans g)
    (hnext : ∀ a, Splits (next a) (rows a)) :
    Splits (g >>= next) fun bounds items value => ∃ item rest a, items = item :: rest ∧
      g bounds 1 item a ∧ rows a bounds rest value where
  iff := by
    intro bounds n bs value
    rw [Grammar.bind_iff]
    constructor
    · rintro ⟨_, k, front, back, a, rfl, rfl, hfirst, hrest⟩
      obtain ⟨rfl, -⟩ := hg hfirst
      obtain ⟨items, rfl, rfl, hrows⟩ := (hnext a).iff.mp hrest
      exact ⟨front :: items, rfl, Nat.add_comm _ _, front, items, a, rfl, hfirst, hrows⟩
    · rintro ⟨_, rfl, rfl, item, rest, a, rfl, hfirst, hrows⟩
      exact ⟨1, rest.length, item, rest.flatten, a, Nat.add_comm _ _, rfl, hfirst,
        (hnext a).iff.mpr ⟨rest, rfl, rfl, hrows⟩⟩
  ne_nil := by
    rintro bounds _ value ⟨item, rest, a, rfl, hfirst, hrows⟩
    rw [List.forall_mem_cons]
    exact ⟨(hg hfirst).2.ne_nil, (hnext a).ne_nil hrows⟩

/-- A grammar of single elements. -/
theorem single (hg : Spans g) :
    Splits g fun bounds items value => ∃ item, items = [item] ∧ g bounds 1 item value := by
  have hpure : Splits (g >>= fun a => Pure.pure a) _ := cons hg fun a => Splits.pure a
  rw [bind_pure] at hpure
  refine hpure.of_iff fun bounds items value => ⟨?_, ?_⟩
  · rintro ⟨item, _, a, rfl, hitem, rfl, rfl⟩
    exact ⟨item, rfl, hitem⟩
  · rintro ⟨item, rfl, hitem⟩
    exact ⟨item, [], value, rfl, hitem, rfl, rfl⟩

/-- As many elements as are asked for, each with its value. -/
theorem times (hg : Spans g) (n : Nat) : Splits (Grammar.times g n) fun bounds items values =>
    items.length = n ∧ List.Forall₂ (g bounds 1) items values := by
  induction n with
  | zero =>
      refine (Splits.pure []).of_iff fun bounds items values => ⟨?_, ?_⟩
      · rintro ⟨rfl, rfl⟩
        exact ⟨rfl, .nil⟩
      · rintro ⟨hlength, hall⟩
        obtain rfl := List.length_eq_zero_iff.mp hlength
        cases hall
        exact ⟨rfl, rfl⟩
  | succ n ih =>
      have hcons := cons hg fun first => ih.map fun others => first :: others
      refine Splits.of_iff hcons fun bounds items values => ⟨?_, ?_⟩
      · rintro ⟨item, rest, a, rfl, hitem, others, ⟨rfl, hall⟩, rfl⟩
        exact ⟨rfl, .cons hitem hall⟩
      · rintro ⟨hlength, hall⟩
        cases hall with
        | nil => cases hlength
        | cons hitem hall =>
            exact ⟨_, _, _, rfl, hitem, _, ⟨Nat.succ.inj hlength, hall⟩, rfl⟩

end Splits

/-! ## Containers -/

theorem length_le_length_flatten {items : List Bytes} (h : ∀ item ∈ items, item ≠ []) :
    items.length ≤ items.flatten.length := by
  induction items with
  | nil => exact Nat.zero_le _
  | cons item rest ih =>
      rw [List.forall_mem_cons] at h
      have hitem := List.length_pos_iff.mpr h.1
      have hrest := ih h.2
      rw [List.length_cons, List.flatten_cons, List.length_append]
      omega

section

variable {bounds : Limits} {items : List Bytes} {bs : Bytes}

/-- A header and the elements that it declares are those behind their size and count. -/
theorem enclosed_iff {width : Nat} (hitems : ∀ item ∈ items, item ≠ []) :
    (∃ header heading, bs = header ++ items.flatten ∧ CompoundHeader width bounds header heading ∧
      heading.count = items.length ∧
        ∀ size, heading.size = some size → items.flatten.length = size) ↔
      Enclosed width bounds.maxCollectionLength items bs := by
  constructor
  · rintro ⟨_, _, rfl, ⟨size, sizeBytes, countBytes, rfl, hwidth, hwidth', htotal, rfl, -, hlimit⟩,
      hcount, hsize⟩
    rw [hcount] at hlimit
    refine ⟨hlimit, countBytes, hwidth', hcount, sizeBytes, List.append_assoc _ _ _, hwidth, ?_⟩
    rw [htotal, List.length_append, hwidth', hsize size rfl]
  · rintro ⟨hlimit, countBytes, hwidth', hcount, sizeBytes, rfl, hwidth, htotal⟩
    rw [List.length_append, hwidth'] at htotal
    rw [← hcount] at hlimit
    have hspare : BigEndian.toNat countBytes ≤ items.flatten.length :=
      hcount ▸ length_le_length_flatten hitems
    refine ⟨sizeBytes ++ countBytes, _, (List.append_assoc _ _ _).symm, ⟨_, sizeBytes, countBytes,
      rfl, hwidth, hwidth', htotal, rfl, hspare, hlimit⟩, hcount, ?_⟩
    rintro _ ⟨⟩
    rfl

/-- The head of a list and the elements that it declares are a written list. -/
theorem listOf_iff (hitems : ∀ item ∈ items, item ≠ []) :
    (∃ format header heading, bs = FormatCode.toByte format :: (header ++ items.flatten) ∧
      ListHeader format bounds header heading ∧ heading.count = items.length ∧
        ∀ size, heading.size = some size → items.flatten.length = size) ↔
      ListOf bounds.maxCollectionLength items bs := by
  constructor
  · rintro ⟨format, header, heading, rfl, hheader, hcount, hsize⟩
    unfold ListHeader at hheader
    split at hheader
    · obtain ⟨rfl, rfl⟩ := hheader
      obtain rfl := List.length_eq_zero_iff.mp hcount.symm
      exact .inl ⟨rfl, rfl⟩
    · exact .inr ⟨(0xc0, 1), by decide, _, rfl,
        (enclosed_iff hitems).mp ⟨header, heading, rfl, hheader, hcount, hsize⟩⟩
    · exact .inr ⟨(0xd0, 4), by decide, _, rfl,
        (enclosed_iff hitems).mp ⟨header, heading, rfl, hheader, hcount, hsize⟩⟩
    · exact hheader.elim
  · rintro (⟨rfl, rfl⟩ | ⟨form, hform, rest, rfl, henclosed⟩)
    · exact ⟨.list0, [], ⟨0, some 0⟩, rfl, ⟨rfl, rfl⟩, rfl, fun _ => Option.some.inj⟩
    · obtain ⟨header, heading, rfl, hheader, hcount, hsize⟩ := (enclosed_iff hitems).mpr henclosed
      rcases mem_listForms.mp hform with rfl | rfl
      · exact ⟨.list8, header, heading, rfl, hheader, hcount, hsize⟩
      · exact ⟨.list32, header, heading, rfl, hheader, hcount, hsize⟩

/-- The head of a map and the keys and values that it declares are a written map. -/
theorem collected_map_iff (hitems : ∀ item ∈ items, item ≠ []) :
    (∃ format header heading, bs = FormatCode.toByte format :: (header ++ items.flatten) ∧
      MapHeader format bounds header heading ∧ heading.count = items.length ∧
        ∀ size, heading.size = some size → items.flatten.length = size) ↔
      Collected mapForms bounds.maxCollectionLength items bs := by
  constructor
  · rintro ⟨format, header, heading, rfl, hheader, hcount, hsize⟩
    unfold MapHeader at hheader
    split at hheader
    · exact ⟨(0xc1, 1), by decide, _, rfl,
        (enclosed_iff hitems).mp ⟨header, heading, rfl, hheader, hcount, hsize⟩⟩
    · exact ⟨(0xd1, 4), by decide, _, rfl,
        (enclosed_iff hitems).mp ⟨header, heading, rfl, hheader, hcount, hsize⟩⟩
    · exact hheader.elim
  · rintro ⟨form, hform, rest, rfl, henclosed⟩
    obtain ⟨header, heading, rfl, hheader, hcount, hsize⟩ := (enclosed_iff hitems).mpr henclosed
    rcases mem_mapForms.mp hform with rfl | rfl
    · exact ⟨.map8, header, heading, rfl, hheader, hcount, hsize⟩
    · exact ⟨.map32, header, heading, rfl, hheader, hcount, hsize⟩

end

namespace Grammar

variable {α : Type} {bounds : Limits} {n : Nat} {bs : Bytes} {value : α}
  {elements : Nat → Grammar α} {rows : Nat → Limits → List Bytes → α → Prop}

/-- A list is its elements, written as a list. -/
theorem listed_iff (h : ∀ count, Splits (elements count) (rows count)) :
    listed elements bounds n bs value ↔ n = 1 ∧ 0 < bounds.maxDepth ∧
      ∃ items, ListOf bounds.maxCollectionLength items bs ∧
        rows items.length bounds.inner items value := by
  refine and_congr_right fun _ => and_congr_right fun _ => ⟨?_, ?_⟩
  · rintro ⟨_, heading, _, _, rfl, ⟨rfl, format, header, rfl, hheader⟩, hsize, helements⟩
    obtain ⟨items, rfl, hlength, hrows⟩ := (h _).iff.mp helements
    have hlist := (listOf_iff ((h _).ne_nil hrows)).mp
      ⟨format, header, heading, rfl, hheader, hlength.symm, hsize⟩
    rw [← hlength] at hrows
    exact ⟨items, hlist, hrows⟩
  · rintro ⟨items, hlist, hrows⟩
    obtain ⟨format, header, heading, rfl, hheader, hcount, hsize⟩ :=
      (listOf_iff ((h _).ne_nil hrows)).mpr hlist
    refine ⟨_, heading, _, _, rfl, ⟨hcount, format, header, rfl, hheader⟩, hsize, ?_⟩
    rw [hcount]
    exact (h _).iff.mpr ⟨items, rfl, rfl, hrows⟩

/-- A map is its keys and values in turn, written as a map. -/
theorem mapped_iff (h : ∀ entries, Splits (elements entries) (rows entries)) :
    mapped elements bounds n bs value ↔ n = 1 ∧ 0 < bounds.maxDepth ∧
      ∃ items, MapOf bounds.maxCollectionLength items bs ∧
        rows (items.length / 2) bounds.inner items value := by
  refine and_congr_right fun _ => and_congr_right fun _ => ⟨?_, ?_⟩
  · rintro ⟨_, heading, entries, _, rfl, ⟨hentries, format, header, rfl, hheader⟩, hsize,
      helements⟩
    obtain ⟨items, rfl, hlength, hrows⟩ := (h _).iff.mp helements
    have hmap := (collected_map_iff ((h _).ne_nil hrows)).mp
      ⟨format, header, heading, rfl, hheader, hlength.symm, hsize⟩
    have hhalf : items.length / 2 = entries := by omega
    rw [← hhalf] at hrows
    exact ⟨items, ⟨hmap, by omega⟩, hrows⟩
  · rintro ⟨items, ⟨hmap, heven⟩, hrows⟩
    obtain ⟨format, header, heading, rfl, hheader, hcount, hsize⟩ :=
      (collected_map_iff ((h _).ne_nil hrows)).mpr hmap
    have hentries : heading.count = 2 * (items.length / 2) := by omega
    refine ⟨_, heading, _, _, rfl, ⟨hentries, format, header, rfl, hheader⟩, hsize, ?_⟩
    rw [hcount]
    exact (h _).iff.mpr ⟨items, rfl, rfl, hrows⟩

/-- A described value is a descriptor and its body. -/
theorem described_written_iff {body : RawDescriptor → Grammar α} :
    described body bounds n bs value ↔ n = 1 ∧ 0 < bounds.maxDepth ∧
      ∃ raw content, Described raw content bs ∧ body raw bounds.inner 1 content value := by
  refine and_congr_right fun _ => and_congr_right fun _ => ⟨?_, ?_⟩
  · rintro ⟨_, _, raw, content, rfl, ⟨rfl, descriptor, rfl, hraw⟩, -, hbody⟩
    exact ⟨raw, content, ⟨descriptor, rfl, (descriptor_written_iff.mp hraw).2⟩, hbody⟩
  · rintro ⟨raw, content, ⟨descriptor, rfl, hraw⟩, hbody⟩
    exact ⟨_, ⟨1, none⟩, raw, content, rfl,
      ⟨rfl, descriptor, rfl, descriptor_written_iff.mpr ⟨rfl, hraw⟩⟩, nofun, hbody⟩

/-- A list of what a grammar says is written as the list of the encodings. -/
theorem listOf_written_iff {g : Grammar α} (hg : Spans g) {values : List α} :
    listOf g bounds n bs values ↔ n = 1 ∧ 0 < bounds.maxDepth ∧
      ∃ items, ListOf bounds.maxCollectionLength items bs ∧
        List.Forall₂ (g bounds.inner 1) items values := by
  rw [listOf, listed_iff fun count => Splits.times hg count]
  simp only [true_and]

end Grammar

end AmqpEnvelope
