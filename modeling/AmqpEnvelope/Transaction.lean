import AmqpEnvelope.Values

/-!
# Transaction components

A wire transaction is a list of component groups and a salt.  A group is known by
its ordinal, and the ordinals order the leaves of the hash tree over the groups, so
a group has to stand at the position that its index names.

* `orderFault?` finds the first group that does not.
* `WireTransaction` holds groups without such a fault, and `WireTransaction.ofGroups`
  is the only way to build one from unchecked groups.
-/

namespace AmqpEnvelope

/-- The kinds of component groups, in ordinal order. -/
inductive GroupKind where
  | inputs | outputs | commands | attachments | notary | timeWindow | signers | references
deriving DecidableEq, Repr

namespace GroupKind

/-- Every kind, in ordinal order. -/
def all : List GroupKind :=
  [inputs, outputs, commands, attachments, notary, timeWindow, signers, references]

/-- The position of the kind. -/
def ordinal : GroupKind → Nat
  | inputs => 0
  | outputs => 1
  | commands => 2
  | attachments => 3
  | notary => 4
  | timeWindow => 5
  | signers => 6
  | references => 7

/-- The kind at a position. -/
def ofOrdinal? (n : Nat) : Option GroupKind := all[n]?

/-- The kind that an encoded group index names. -/
def ofIndex? (index : Int32) : Option GroupKind :=
  if 0 ≤ index.toInt then ofOrdinal? index.toInt.toNat else none

/-- The name of the kind. -/
def name : GroupKind → String
  | inputs => "INPUTS"
  | outputs => "OUTPUTS"
  | commands => "COMMANDS"
  | attachments => "ATTACHMENTS"
  | notary => "NOTARY"
  | timeWindow => "TIMEWINDOW"
  | signers => "SIGNERS"
  | references => "REFERENCES"

/-- The name with the ordinal behind it. -/
def text (kind : GroupKind) : String := s!"{kind.name}({kind.ordinal})"

theorem ofOrdinal?_eq_some_iff {n : Nat} {kind : GroupKind} :
    ofOrdinal? n = some kind ↔ n = kind.ordinal := by
  constructor
  · intro h
    have hn : n < all.length := (List.getElem?_eq_some_iff.mp h).1
    have hn : n < 8 := hn
    match n, hn with
    | 0, _ | 1, _ | 2, _ | 3, _ | 4, _ | 5, _ | 6, _ | 7, _ => cases kind <;> simp_all [ofOrdinal?, all, ordinal]
  · rintro rfl
    cases kind <;> rfl

end GroupKind

/-- One group of serialised components, in stream order. -/
structure ComponentGroup where
  index : Int32
  components : List ByteSequence
deriving DecidableEq, Repr

/-- The kind that the group's index names. -/
def ComponentGroup.kind? (group : ComponentGroup) : Option GroupKind :=
  GroupKind.ofIndex? group.index

/-- A group that does not stand where its index says. -/
inductive OrderFault where
  /-- The index names no kind. -/
  | unknownGroup (position : Nat) (index : Int32)
  /-- The index names a kind that belongs elsewhere. -/
  | outOfOrder (position : Nat) (index : Int32) (found : GroupKind)
deriving DecidableEq, Repr

/-- The wording of the fault. -/
def OrderFault.message : OrderFault → String
  | .unknownGroup position index =>
      s!"Component group at position {position} has index {index}, which is not a known group ordinal"
  | .outOfOrder position index found =>
      s!"Component group {found.text} found at position {position} (index {index}); group order must follow ordinals"

/-- The first fault among groups of which the first stands at `position`. -/
def orderFaultFrom (position : Nat) : List ComponentGroup → Option OrderFault
  | [] => none
  | group :: rest =>
      match group.kind? with
      | none => some (.unknownGroup position group.index)
      | some kind =>
          if kind.ordinal = position then orderFaultFrom (position + 1) rest
          else some (.outOfOrder position group.index kind)

/-- The first group that does not stand at its ordinal position. -/
def orderFault? (groups : List ComponentGroup) : Option OrderFault := orderFaultFrom 0 groups

/-- A transaction as it travels, before it is resolved. -/
structure WireTransaction where
  groups : List ComponentGroup
  salt : PrivacySalt
  /-- Every group stands at its ordinal position. -/
  ordered : orderFault? groups = none
deriving DecidableEq

namespace WireTransaction

/-- Build a transaction, or name the first group that is out of place. -/
def ofGroups (groups : List ComponentGroup) (salt : PrivacySalt) :
    Except OrderFault WireTransaction :=
  match h : orderFault? groups with
  | some fault => .error fault
  | none => .ok ⟨groups, salt, h⟩

/-- The group of a kind, if the transaction reaches that far. -/
def group? (w : WireTransaction) (kind : GroupKind) : Option ComponentGroup :=
  w.groups[kind.ordinal]?

/-- The components of a kind; none when the group is absent. -/
def components (w : WireTransaction) (kind : GroupKind) : List ByteSequence :=
  match w.group? kind with
  | some group => group.components
  | none => []

/-- The consumed states. -/
def inputs (w : WireTransaction) : List ByteSequence := w.components .inputs

/-- The produced states. -/
def outputs (w : WireTransaction) : List ByteSequence := w.components .outputs

/-- The groups with their kinds, in the order of the hash tree's leaves. -/
def orderedGroups (w : WireTransaction) : List (GroupKind × List ByteSequence) :=
  (w.groups.zip GroupKind.all).map fun (group, kind) => (kind, group.components)

/-- The ordinals of the groups that are present. -/
def ordinals (w : WireTransaction) : List Nat :=
  w.orderedGroups.map fun (kind, _) => kind.ordinal

/-- The number of components in all groups. -/
def componentCount (w : WireTransaction) : Nat :=
  w.groups.foldl (fun total group => total + group.components.length) 0

end WireTransaction

end AmqpEnvelope
