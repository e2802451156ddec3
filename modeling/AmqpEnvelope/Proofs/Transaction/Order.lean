import AmqpEnvelope.Transaction
import Mathlib.Algebra.GroupWithZero.Nat
import Mathlib.Data.List.Basic

/-!
# The order of component groups

The leaves of the hash tree over a transaction are the groups by position, so it matters that a
position, the index stored in the group there and the kind that the accessors speak of are always
the same number.

* `orderFaultFrom_eq_some_iff`: the fault that is reported is that of the first group out of place.
* `WireTransaction.Aligned` is what the accessors say of a transaction, in terms of its groups.
* `WireTransaction.ofGroups_builds` is the whole of it for unchecked groups: which are accepted,
  what is reported of the others, and that nothing is lost or renumbered by the accessors.
-/

namespace AmqpEnvelope

/-! ## Indices and kinds -/

/-- The kind of an index is the one with that ordinal. -/
theorem GroupKind.ofIndex?_eq_some_iff {index : Int32} {kind : GroupKind} :
    ofIndex? index = some kind ↔ index.toInt = kind.ordinal := by
  unfold ofIndex?
  split
  next hindex =>
    rw [ofOrdinal?_eq_some_iff]
    omega
  next hindex => exact ⟨nofun, fun h => absurd h (by omega)⟩

theorem GroupKind.ordinal_lt (kind : GroupKind) : kind.ordinal < 8 := by
  cases kind <;> decide

theorem GroupKind.exists_ordinal {n : Nat} (hn : n < 8) : ∃ kind : GroupKind, kind.ordinal = n :=
  ⟨all[n], (ofOrdinal?_eq_some_iff.mp (List.getElem?_eq_getElem hn)).symm⟩

namespace ComponentGroup

variable {group : ComponentGroup} {position : Nat}

theorem kind?_eq_some_iff {kind : GroupKind} :
    group.kind? = some kind ↔ group.index.toInt = kind.ordinal :=
  GroupKind.ofIndex?_eq_some_iff

theorem kind?_eq_none_iff : group.kind? = none ↔ group.index.toInt < 0 ∨ 7 < group.index.toInt := by
  cases hkind : group.kind? with
  | none =>
      have houtside : group.index.toInt < 0 ∨ 7 < group.index.toInt := by
        by_contra hinside
        obtain ⟨kind, hordinal⟩ : ∃ kind : GroupKind, kind.ordinal = group.index.toInt.toNat :=
          GroupKind.exists_ordinal (by omega)
        have hsome : group.kind? = some kind := kind?_eq_some_iff.mpr (by omega)
        rw [hkind] at hsome
        cases hsome
      simpa using houtside
  | some kind =>
      have hindex := kind?_eq_some_iff.mp hkind
      have hlt := kind.ordinal_lt
      simp only [reduceCtorEq, false_iff]
      omega

/-- The group stands where its index says, and there is a kind for that place. -/
def InPlace (group : ComponentGroup) (position : Nat) : Prop :=
  position < 8 ∧ group.index.toInt = position

/-- What there is to say of a group out of place: its index names no kind, or it names the kind
of another place. -/
inductive Misplaced (group : ComponentGroup) (position : Nat) : OrderFault → Prop
  | unknownGroup (outOfPlace : ¬ group.InPlace position)
      (outside : group.index.toInt < 0 ∨ 7 < group.index.toInt) :
      Misplaced group position (.unknownGroup position group.index)
  | outOfOrder {kind : GroupKind} (outOfPlace : ¬ group.InPlace position)
      (named : group.index.toInt = kind.ordinal) :
      Misplaced group position (.outOfOrder position group.index kind)

theorem inPlace_or_misplaced (group : ComponentGroup) (position : Nat) :
    group.InPlace position ∨ ∃ fault, group.Misplaced position fault := by
  by_cases hplace : group.InPlace position
  · exact .inl hplace
  · right
    cases hkind : group.kind? with
    | none => exact ⟨_, .unknownGroup hplace (kind?_eq_none_iff.mp hkind)⟩
    | some kind => exact ⟨_, .outOfOrder hplace (kind?_eq_some_iff.mp hkind)⟩

theorem Misplaced.not_inPlace {fault : OrderFault} (h : group.Misplaced position fault) :
    ¬ group.InPlace position := by
  cases h with
  | unknownGroup hplace _ => exact hplace
  | outOfOrder hplace _ => exact hplace

end ComponentGroup

/-! ## The search for a fault -/

section Fault

variable {group : ComponentGroup} {groups rest : List ComponentGroup} {position : Nat}
  {fault : OrderFault}

/-- The search passes over a group in place, -/
theorem orderFaultFrom_cons_of_inPlace (h : group.InPlace position) :
    orderFaultFrom position (group :: rest) = orderFaultFrom (position + 1) rest := by
  obtain ⟨kind, hordinal⟩ := GroupKind.exists_ordinal h.1
  have hkind : group.kind? = some kind :=
    ComponentGroup.kind?_eq_some_iff.mpr (by rw [h.2, hordinal])
  simp [orderFaultFrom, hkind, hordinal]

/-- and it ends at one that is not. -/
theorem orderFaultFrom_cons_of_misplaced (h : group.Misplaced position fault) :
    orderFaultFrom position (group :: rest) = some fault := by
  cases h with
  | unknownGroup _ houtside =>
      have hkind := ComponentGroup.kind?_eq_none_iff.mpr houtside
      simp [orderFaultFrom, hkind]
  | @outOfOrder kind hplace hnamed =>
      have hkind := ComponentGroup.kind?_eq_some_iff.mpr hnamed
      -- The place is compared with the ordinal of the kind, and that is the index.
      have hne : kind.ordinal ≠ position := by
        intro hordinal
        apply hplace
        rw [← hordinal]
        exact ⟨kind.ordinal_lt, hnamed⟩
      simp [orderFaultFrom, hkind, hne]

theorem orderFaultFrom_cons_eq_none_iff : orderFaultFrom position (group :: rest) = none ↔
    group.InPlace position ∧ orderFaultFrom (position + 1) rest = none := by
  rcases group.inPlace_or_misplaced position with hplace | ⟨fault, hfault⟩
  · rw [orderFaultFrom_cons_of_inPlace hplace]
    exact (and_iff_right hplace).symm
  · rw [orderFaultFrom_cons_of_misplaced hfault]
    simp [hfault.not_inPlace]

/-- No fault is found exactly if every group is in place, by induction on the groups. -/
theorem orderFaultFrom_eq_none_iff : orderFaultFrom position groups = none ↔
    ∀ (i : Nat) (group : ComponentGroup), groups[i]? = some group →
      group.InPlace (position + i) := by
  induction groups generalizing position with
  | nil => simp [orderFaultFrom]
  | cons head rest ih =>
      rw [orderFaultFrom_cons_eq_none_iff, ih]
      constructor
      · intro h i group hgroup
        cases i with
        | zero =>
            obtain rfl := Option.some.inj hgroup
            exact h.1
        | succ i =>
            rw [← Nat.add_assoc, Nat.add_right_comm]
            exact h.2 i group hgroup
      · intro h
        refine ⟨h 0 head rfl, fun i group hgroup => ?_⟩
        rw [Nat.add_right_comm, Nat.add_assoc]
        exact h (i + 1) group hgroup

/-- The fault of some groups is that of a group behind others that have none. -/
theorem orderFaultFrom_eq_some_iff : orderFaultFrom position groups = some fault ↔
    ∃ before group after, groups = before ++ group :: after ∧
      orderFaultFrom position before = none ∧
        group.Misplaced (position + before.length) fault := by
  constructor
  · intro hfault
    induction groups generalizing position with
    | nil => cases hfault
    | cons group rest ih =>
        rcases group.inPlace_or_misplaced position with hplace | ⟨fault', hmisplaced⟩
        · rw [orderFaultFrom_cons_of_inPlace hplace] at hfault
          obtain ⟨before, group', after, rfl, hbefore, hmisplaced⟩ := ih hfault
          refine ⟨group :: before, group', after, List.cons_append.symm, ?_, ?_⟩
          · exact orderFaultFrom_cons_eq_none_iff.mpr ⟨hplace, hbefore⟩
          · rwa [List.length_cons, Nat.add_comm before.length, ← Nat.add_assoc]
        · rw [orderFaultFrom_cons_of_misplaced hmisplaced] at hfault
          obtain rfl := Option.some.inj hfault
          exact ⟨[], group, rest, rfl, rfl, hmisplaced⟩
  · rintro ⟨before, group, after, rfl, hbefore, hmisplaced⟩
    induction before generalizing position with
    | nil => exact orderFaultFrom_cons_of_misplaced hmisplaced
    | cons head before ih =>
        obtain ⟨hplace, hbefore⟩ := orderFaultFrom_cons_eq_none_iff.mp hbefore
        rw [List.length_cons, Nat.add_comm before.length, ← Nat.add_assoc] at hmisplaced
        rw [List.cons_append, orderFaultFrom_cons_of_inPlace hplace]
        exact ih hbefore hmisplaced

/-- The first group out of place, and what there is to say of it. -/
def FirstFault (groups : List ComponentGroup) (fault : OrderFault) : Prop :=
  ∃ before group after, groups = before ++ group :: after ∧
    (∀ (i : Nat) (earlier : ComponentGroup), before[i]? = some earlier → earlier.InPlace i) ∧
      group.Misplaced before.length fault

/-- Groups in place are those at their indices, as long as there are kinds for all of them. -/
theorem forall_inPlace_iff :
    (∀ (i : Nat) (group : ComponentGroup), groups[i]? = some group → group.InPlace i) ↔
      groups.length ≤ 8 ∧ ∀ (i : Nat) (group : ComponentGroup), groups[i]? = some group →
        group.index.toInt = i := by
  constructor
  · intro hplace
    refine ⟨?_, fun i group hgroup => (hplace i group hgroup).2⟩
    by_contra hlength
    have hninth : groups[8]? = some groups[8] := List.getElem?_eq_getElem (by omega)
    have hlt : 8 < 8 := (hplace 8 _ hninth).1
    omega
  · rintro ⟨hlength, hindex⟩ i group hgroup
    have hi : i < groups.length := (List.getElem?_eq_some_iff.mp hgroup).1
    exact ⟨by omega, hindex i group hgroup⟩

theorem orderFault?_eq_none_iff_length_le : orderFault? groups = none ↔ groups.length ≤ 8 ∧
    ∀ (i : Nat) (group : ComponentGroup), groups[i]? = some group → group.index.toInt = i := by
  rw [orderFault?, orderFaultFrom_eq_none_iff, ← forall_inPlace_iff]
  simp only [Nat.zero_add]

theorem orderFault?_eq_some_iff : orderFault? groups = some fault ↔ FirstFault groups fault := by
  rw [orderFault?, orderFaultFrom_eq_some_iff, FirstFault]
  simp only [orderFaultFrom_eq_none_iff, Nat.zero_add]

end Fault

/-! ## Transactions -/

/-- If a property holds at one place only, what has it is what is there. -/
theorem filter_eq_toList_getElem? {α : Type} {p : α → Bool} {l : List α} {k : Nat}
    (h : ∀ i a, l[i]? = some a → (p a = true ↔ i = k)) : l.filter p = l[k]?.toList := by
  induction l generalizing k with
  | nil => rfl
  | cons a l ih =>
      have hhead := h 0 a rfl
      cases k with
      | zero =>
          have hrest : l.filter p = [] := by
            rw [List.filter_eq_nil_iff]
            intro b hb hpb
            obtain ⟨i, hi⟩ := List.mem_iff_getElem?.mp hb
            have hzero := (h (i + 1) b hi).mp hpb
            omega
          rw [List.filter_cons_of_pos (hhead.mpr rfl), hrest]
          rfl
      | succ k =>
          have hfalse : ¬ p a = true := fun ha => by
            have hzero := hhead.mp ha
            omega
          rw [List.filter_cons_of_neg hfalse]
          apply ih
          intro i b hb
          rw [h (i + 1) b hb]
          omega

namespace WireTransaction

variable {groups : List ComponentGroup} {salt : PrivacySalt} {w : WireTransaction}

theorem ofGroups_eq_ok_iff : ofGroups groups salt = .ok w ↔ w.groups = groups ∧ w.salt = salt := by
  unfold ofGroups
  split
  next fault hfault =>
    refine ⟨nofun, ?_⟩
    rintro ⟨rfl, -⟩
    rw [w.ordered] at hfault
    cases hfault
  next hordered =>
    constructor
    · rintro ⟨⟩
      exact ⟨rfl, rfl⟩
    · obtain ⟨_, _, _⟩ := w
      rintro ⟨rfl, rfl⟩
      rfl

theorem exists_ofGroups_iff : (∃ w, ofGroups groups salt = .ok w) ↔ orderFault? groups = none := by
  constructor
  · rintro ⟨w, hw⟩
    obtain ⟨rfl, -⟩ := ofGroups_eq_ok_iff.mp hw
    exact w.ordered
  · intro hordered
    exact ⟨⟨groups, salt, hordered⟩, ofGroups_eq_ok_iff.mpr ⟨rfl, rfl⟩⟩

theorem ofGroups_eq_error_iff {fault : OrderFault} :
    ofGroups groups salt = .error fault ↔ orderFault? groups = some fault := by
  unfold ofGroups
  split
  next fault' hfault => simp [hfault]
  next hordered => simp [hordered]

theorem length_groups_le (w : WireTransaction) : w.groups.length ≤ 8 :=
  (orderFault?_eq_none_iff_length_le.mp w.ordered).1

/-- The group at a place has the place for an index. -/
theorem index_of_getElem? (w : WireTransaction) {i : Nat} {group : ComponentGroup}
    (hgroup : w.groups[i]? = some group) : group.index.toInt = i :=
  (orderFault?_eq_none_iff_length_le.mp w.ordered).2 i group hgroup

/-- What the accessors say of the groups of a transaction. -/
structure Aligned (w : WireTransaction) : Prop where
  /-- Every group is listed with the kind of its place, and nothing else is. -/
  length_orderedGroups : w.orderedGroups.length = w.groups.length
  orderedGroups_getElem?_eq_some_iff : ∀ (i : Nat) (kind : GroupKind)
    (components : List ByteSequence), w.orderedGroups[i]? = some (kind, components) ↔
      kind.ordinal = i ∧ ∃ group, w.groups[i]? = some group ∧ group.components = components
  ordinals_eq : w.ordinals = List.range w.groups.length
  /-- The group of a kind is the only one with the ordinal of the kind for an index. -/
  filter_index_eq : ∀ kind : GroupKind,
    w.groups.filter (fun group => group.index.toInt = (kind.ordinal : Int)) = (w.group? kind).toList
  group?_eq_none_iff : ∀ kind, w.group? kind = none ↔ w.groups.length ≤ kind.ordinal
  components_eq_nil_iff : ∀ kind, w.components kind = [] ↔
    w.group? kind = none ∨ ∃ group, w.group? kind = some group ∧ group.components = []
  componentCount_eq : w.componentCount = (w.orderedGroups.map fun entry => entry.2.length).sum

/-- There is a kind for each group, so that pairing them with the kinds drops none. -/
theorem length_orderedGroups (w : WireTransaction) : w.orderedGroups.length = w.groups.length := by
  have hlength := w.length_groups_le
  have hall : GroupKind.all.length = 8 := rfl
  simp only [orderedGroups, List.length_map, List.length_zip, hall]
  omega

theorem orderedGroups_getElem?_eq_some_iff (w : WireTransaction) (i : Nat) (kind : GroupKind)
    (components : List ByteSequence) : w.orderedGroups[i]? = some (kind, components) ↔
      kind.ordinal = i ∧ ∃ group, w.groups[i]? = some group ∧ group.components = components := by
  have hkind : GroupKind.all[i]? = some kind ↔ i = kind.ordinal :=
    GroupKind.ofOrdinal?_eq_some_iff
  simp only [orderedGroups, List.getElem?_map, Option.map_eq_some_iff, Prod.exists,
    List.getElem?_zip_eq_some, Prod.mk.injEq]
  constructor
  · rintro ⟨group, kind', ⟨hgroup, hkind'⟩, rfl, rfl⟩
    exact ⟨(GroupKind.ofOrdinal?_eq_some_iff.mp hkind').symm, group, hgroup, rfl⟩
  · rintro ⟨hordinal, group, hgroup, rfl⟩
    exact ⟨group, kind, ⟨hgroup, hkind.mpr hordinal.symm⟩, rfl, rfl⟩

theorem ordinals_eq (w : WireTransaction) : w.ordinals = List.range w.groups.length := by
  apply List.ext_getElem
  · simp [ordinals, w.length_orderedGroups]
  · intro i hi hi'
    simp only [ordinals, List.getElem_map, List.getElem_range]
    have hentry := List.getElem?_eq_getElem (l := w.orderedGroups) (by simpa [ordinals] using hi)
    exact ((w.orderedGroups_getElem?_eq_some_iff i _ _).mp hentry).1

theorem filter_index_eq (w : WireTransaction) (kind : GroupKind) :
    w.groups.filter (fun group => group.index.toInt = (kind.ordinal : Int)) = (w.group? kind).toList := by
  apply filter_eq_toList_getElem?
  intro i group hgroup
  rw [decide_eq_true_eq, w.index_of_getElem? hgroup, Int.natCast_inj]

theorem componentCount_eq (w : WireTransaction) :
    w.componentCount = (w.orderedGroups.map fun entry => entry.2.length).sum := by
  have hlength : w.groups.length ≤ GroupKind.all.length := w.length_groups_le
  have hentries : w.orderedGroups.map (fun entry => entry.2.length) =
      w.groups.map fun group => group.components.length := by
    calc w.orderedGroups.map (fun entry => entry.2.length)
        = (w.groups.zip GroupKind.all).map fun entry => entry.1.components.length := by
          simp [orderedGroups, Function.comp_def]
      _ = ((w.groups.zip GroupKind.all).map Prod.fst).map fun group => group.components.length := by
          simp [Function.comp_def]
      _ = w.groups.map fun group => group.components.length := by
          rw [List.map_fst_zip hlength]
  rw [hentries, List.sum_eq_foldl, List.foldl_map, componentCount]

theorem aligned (w : WireTransaction) : w.Aligned where
  length_orderedGroups := w.length_orderedGroups
  orderedGroups_getElem?_eq_some_iff := w.orderedGroups_getElem?_eq_some_iff
  ordinals_eq := w.ordinals_eq
  filter_index_eq := w.filter_index_eq
  group?_eq_none_iff := fun kind => List.getElem?_eq_none_iff
  components_eq_nil_iff := by
    intro kind
    unfold components
    cases w.group? kind <;> simp
  componentCount_eq := w.componentCount_eq

/-- A transaction is built from some groups exactly if each stands at the place of its index and
there are no more than kinds; otherwise it is the first group out of place that is reported.  A
transaction that is built keeps the groups and the salt, and its accessors agree with one another
about them. -/
theorem ofGroups_builds (groups : List ComponentGroup) (salt : PrivacySalt) :
    ((∃ w, ofGroups groups salt = .ok w) ↔ groups.length ≤ 8 ∧
      ∀ (i : Nat) (group : ComponentGroup), groups[i]? = some group → group.index.toInt = i) ∧
    (∀ fault, ofGroups groups salt = .error fault ↔ FirstFault groups fault) ∧
    ∀ w, ofGroups groups salt = .ok w → w.groups = groups ∧ w.salt = salt ∧ w.Aligned := by
  refine ⟨?_, ?_, ?_⟩
  · rw [exists_ofGroups_iff, orderFault?_eq_none_iff_length_le]
  · intro fault
    rw [ofGroups_eq_error_iff, orderFault?_eq_some_iff]
  · intro w hw
    obtain ⟨hgroups, hsalt⟩ := ofGroups_eq_ok_iff.mp hw
    exact ⟨hgroups, hsalt, w.aligned⟩

/-- One input and no output, under a salt of zeros. -/
theorem input_group_built : ∃ w : WireTransaction, w.ordinals = [0, 1] ∧ w.Aligned := by
  obtain ⟨-, -, h⟩ := ofGroups_builds [⟨0, [⟨[7]⟩]⟩, ⟨1, []⟩] ⟨List.replicate 32 0⟩
  obtain ⟨hgroups, -, haligned⟩ := h _ rfl
  refine ⟨_, ?_, haligned⟩
  rw [haligned.ordinals_eq, hgroups]
  rfl

example : ofGroups [⟨0, []⟩, ⟨2, []⟩, ⟨9, []⟩] ⟨[]⟩ = .error (.outOfOrder 1 2 .commands) := by
  decide

end WireTransaction

end AmqpEnvelope
