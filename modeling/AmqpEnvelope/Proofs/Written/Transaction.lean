import AmqpEnvelope.Proofs.Transaction.Order
import AmqpEnvelope.Proofs.Written.Writer

/-!
# Written transactions

A wire transaction is written as its component groups, in order, and its salt.  Under the
standard registry exactly these streams are decoded to it
(`Registry.decodeRoot_wireTransaction_iff`).
-/

namespace AmqpEnvelope

open Cursor Written

/-! ## Forms -/

namespace Written

/-- There is no group without an ordinal, and each stands where its index says. -/
def InOrder (groups : List ComponentGroup) : Prop :=
  groups.length ≤ 8 ∧
    ∀ (i : Nat) (group : ComponentGroup), groups[i]? = some group → group.index.toInt = i

def ByteSequenceOf (cap : Nat) (value : ByteSequence) (bytes : Bytes) : Prop :=
  ∃ content, BinaryOf value.bytes content ∧
    Composite cap ["net.corda:pgT0Kc3t/bvnzmgu/nb4Cg==", "net.corda:0UvJuq940P0jrySmql4EPg=="]
      [content] bytes

def GroupOf (cap : Nat) (group : ComponentGroup) (bytes : Bytes) : Prop :=
  ∃ components index, ListWith cap (ByteSequenceOf cap) group.components components ∧
    IntOf group.index index ∧
      Composite cap (spelt "net.corda.core.transactions.ComponentGroup") [components, index] bytes

def SaltOf (cap : Nat) (salt : PrivacySalt) (bytes : Bytes) : Prop :=
  salt.bytes.length = 32 ∧ ∃ content, BinaryOf salt.bytes content ∧
    Composite cap (spelt "net.corda.core.contracts.PrivacySalt") [content] bytes

def TransactionOf (cap : Nat) (groups : List ComponentGroup) (salt : PrivacySalt) (bytes : Bytes) :
    Prop :=
  ∃ list content, ListWith cap (GroupOf cap) groups list ∧ SaltOf cap salt content ∧
    Composite cap (spelt "net.corda.core.transactions.WireTransaction") [list, content] bytes

end Written

theorem orderFault?_eq_none_iff {groups : List ComponentGroup} :
    orderFault? groups = none ↔ InOrder groups :=
  orderFault?_eq_none_iff_length_le

/-! ## Grammars of transactions -/

namespace Grammar

variable {settings : Settings} {bounds : Limits} {bs : Bytes}

/-- A byte string with a wrapper that can be taken off. -/
theorem splits_wrapped {α : Type} (wrap : Bytes → α) (bytesOf : α → Bytes)
    (hwrap : ∀ value, wrap (bytesOf value) = value)
    (hbytes : ∀ bytes, bytesOf (wrap bytes) = bytes) :
    Splits (wrap <$> scalar .binary) fun _ items value =>
      ∃ content, items = [content] ∧ BinaryOf (bytesOf value) content := by
  refine ((Splits.single (Spans.scalar .binary)).map wrap).of_iff
    fun bounds items value => ⟨?_, ?_⟩
  · rintro ⟨bytes, ⟨content, rfl, hbinary⟩, rfl⟩
    rw [hbytes]
    exact ⟨content, rfl, (binary_iff.mp hbinary).2⟩
  · rintro ⟨content, rfl, hbinary⟩
    exact ⟨bytesOf value, ⟨content, rfl, binary_iff.mpr ⟨rfl, hbinary⟩⟩, (hwrap value).symm⟩

theorem splits_byteSequence : Splits byteSequence fun _ items value =>
    ∃ content, items = [content] ∧ BinaryOf value.bytes content :=
  splits_wrapped ByteSequence.mk ByteSequence.bytes (fun _ => rfl) fun _ => rfl

theorem splits_privacySalt : Splits privacySalt fun _ items value =>
    value.bytes.length = 32 ∧ ∃ content, items = [content] ∧ BinaryOf value.bytes content := by
  refine (Splits.cons (Spans.scalar .binary) fun bytes =>
    (Splits.pure (PrivacySalt.mk bytes)).ite).of_iff fun bounds items value => ⟨?_, ?_⟩
  · rintro ⟨content, _, bytes, rfl, hbinary, hsize, rfl, rfl⟩
    exact ⟨hsize, content, rfl, (binary_iff.mp hbinary).2⟩
  · rintro ⟨hsize, content, rfl, hbinary⟩
    exact ⟨content, [], value.bytes, rfl, binary_iff.mpr ⟨rfl, hbinary⟩, hsize, rfl, rfl⟩

theorem splits_componentGroup (registry : Registry) :
    Splits (componentGroup registry) fun bounds items value => ∃ components index,
      items = [components, index] ∧
        listOf (typed registry .byteSequence byteSequence) bounds 1 components value.components ∧
          IntOf value.index index := by
  refine (Splits.cons (Spans.listed _) fun components => Splits.cons (Spans.scalar .int)
    fun index => Splits.pure (ComponentGroup.mk index components)).of_iff
      fun bounds items value => ⟨?_, ?_⟩
  · rintro ⟨components, _, sequences, rfl, hlist, index, _, number, rfl, hindex, rfl, rfl⟩
    exact ⟨components, index, rfl, hlist, (int_iff.mp hindex).2⟩
  · rintro ⟨components, index, rfl, hlist, hindex⟩
    exact ⟨components, _, _, rfl, hlist, index, [], _, rfl, int_iff.mpr ⟨rfl, hindex⟩, rfl, rfl⟩

theorem splits_wireTransaction (registry : Registry) :
    Splits (wireTransaction registry) fun bounds items value => ∃ list content,
      items = [list, content] ∧
        listOf (typed registry .componentGroup (componentGroup registry)) bounds 1 list
          value.groups ∧
          typed registry .privacySalt privacySalt bounds 1 content value.salt := by
  have hrows : Splits (wireTransaction registry) fun bounds items value => ∃ list rest groups,
      items = list :: rest ∧
        listOf (typed registry .componentGroup (componentGroup registry)) bounds 1 list groups ∧
          ∃ content rest' salt, rest = content :: rest' ∧
            typed registry .privacySalt privacySalt bounds 1 content salt ∧
              rest' = [] ∧ WireTransaction.ofGroups groups salt = .ok value := by
    refine Splits.cons (Spans.listed _) fun groups => Splits.cons (Spans.typed _ _ _) fun salt => ?_
    -- Behind the salt nothing more is read; what is left is the check of the order.
    cases WireTransaction.ofGroups groups salt with
    | ok transaction =>
        refine (Splits.pure transaction).of_iff fun _ _ _ => and_congr_right fun _ => ?_
        rw [Except.ok.injEq, eq_comm]
    | error fault =>
        refine Splits.fail.of_iff fun _ _ _ => iff_of_false not_false ?_
        rintro ⟨-, h⟩
        cases h
  refine hrows.of_iff fun bounds items value => ⟨?_, ?_⟩
  · rintro ⟨list, _, groups, rfl, hlist, content, _, salt, rfl, hsalt, rfl, hvalue⟩
    obtain ⟨rfl, rfl⟩ := WireTransaction.ofGroups_eq_ok_iff.mp hvalue
    exact ⟨list, content, rfl, hlist, hsalt⟩
  · rintro ⟨list, content, rfl, hlist, hsalt⟩
    exact ⟨list, _, _, rfl, hlist, content, [], _, rfl, hsalt, rfl,
      WireTransaction.ofGroups_eq_ok_iff.mpr ⟨rfl, rfl⟩⟩

theorem byteSequence_written_iff (hroom : 2 ≤ bounds.maxDepth) {value : ByteSequence} :
    typed (.standard settings) .byteSequence byteSequence bounds 1 bs value ↔
      ByteSequenceOf bounds.maxCollectionLength value bs := by
  rw [typed_written_iff Named.byteSequence splits_byteSequence]
  simp only [hroom, true_and, ByteSequenceOf]
  constructor
  · rintro ⟨_, hcomposite, content, rfl, hbinary⟩
    exact ⟨content, hbinary, hcomposite⟩
  · rintro ⟨content, hbinary, hcomposite⟩
    exact ⟨_, hcomposite, content, rfl, hbinary⟩

theorem privacySalt_written_iff (hroom : 2 ≤ bounds.maxDepth) {value : PrivacySalt} :
    typed (.standard settings) .privacySalt privacySalt bounds 1 bs value ↔
      SaltOf bounds.maxCollectionLength value bs := by
  rw [typed_written_iff Named.privacySalt splits_privacySalt]
  simp only [hroom, true_and, SaltOf]
  constructor
  · rintro ⟨_, hcomposite, hsize, content, rfl, hbinary⟩
    exact ⟨hsize, content, hbinary, hcomposite⟩
  · rintro ⟨hsize, content, hbinary, hcomposite⟩
    exact ⟨_, hcomposite, hsize, content, rfl, hbinary⟩

theorem componentGroup_written_iff (hroom : 5 ≤ bounds.maxDepth) {value : ComponentGroup} :
    typed (.standard settings) .componentGroup (componentGroup (.standard settings)) bounds 1 bs
      value ↔ GroupOf bounds.maxCollectionLength value bs := by
  obtain ⟨hcomposite, hopen, hinner⟩ : 2 ≤ bounds.maxDepth ∧
      0 < bounds.inner.inner.maxDepth ∧ 2 ≤ bounds.inner.inner.inner.maxDepth := by
    simp only [Limits.inner]
    omega
  have hlist : ∀ components, listOf (typed (.standard settings) .byteSequence byteSequence)
      bounds.inner.inner 1 components value.components ↔
        ListWith bounds.maxCollectionLength (ByteSequenceOf bounds.maxCollectionLength)
          value.components components := fun components =>
    listOf_with_iff (Spans.typed _ _ _) hopen fun _ _ => byteSequence_written_iff hinner
  rw [typed_written_iff Named.componentGroup (splits_componentGroup _)]
  simp only [hcomposite, true_and, GroupOf, hlist]
  constructor
  · rintro ⟨_, hcomposite, components, index, rfl, hcomponents, hindex⟩
    exact ⟨components, index, hcomponents, hindex, hcomposite⟩
  · rintro ⟨components, index, hcomponents, hindex, hcomposite⟩
    exact ⟨_, hcomposite, components, index, rfl, hcomponents, hindex⟩

theorem wireTransaction_written_iff (hroom : 8 ≤ bounds.maxDepth) {value : WireTransaction} :
    typed (.standard settings) .wireTransaction (wireTransaction (.standard settings)) bounds 1 bs
      value ↔ TransactionOf bounds.maxCollectionLength value.groups value.salt bs := by
  obtain ⟨hcomposite, hopen, hsalt, hinner⟩ : 2 ≤ bounds.maxDepth ∧
      0 < bounds.inner.inner.maxDepth ∧ 2 ≤ bounds.inner.inner.maxDepth ∧
        5 ≤ bounds.inner.inner.inner.maxDepth := by
    simp only [Limits.inner]
    omega
  have hlist : ∀ list, listOf
      (typed (.standard settings) .componentGroup (componentGroup (.standard settings)))
      bounds.inner.inner 1 list value.groups ↔
        ListWith bounds.maxCollectionLength (GroupOf bounds.maxCollectionLength) value.groups
          list := fun list =>
    listOf_with_iff (Spans.typed _ _ _) hopen fun _ _ => componentGroup_written_iff hinner
  rw [typed_written_iff Named.wireTransaction (splits_wireTransaction _)]
  simp only [hcomposite, true_and, TransactionOf, hlist, privacySalt_written_iff hsalt]
  constructor
  · rintro ⟨_, hcomposite, list, content, rfl, hgroups, hsalt⟩
    exact ⟨list, content, hgroups, hsalt, hcomposite⟩
  · rintro ⟨list, content, hgroups, hsalt, hcomposite⟩
    exact ⟨_, hcomposite, list, content, rfl, hgroups, hsalt⟩

end Grammar

/-! ## Writing transactions -/

namespace Writing

def byteSequence (value : ByteSequence) : Bytes :=
  composite "net.corda:pgT0Kc3t/bvnzmgu/nb4Cg==" [binary value.bytes]

def componentGroup (group : ComponentGroup) : Bytes :=
  composite "net.corda:net.corda.core.transactions.ComponentGroup"
    [list (group.components.map byteSequence), int group.index]

def privacySalt (salt : PrivacySalt) : Bytes :=
  composite "net.corda:net.corda.core.contracts.PrivacySalt" [binary salt.bytes]

def wireTransaction (groups : List ComponentGroup) (salt : PrivacySalt) : Bytes :=
  composite "net.corda:net.corda.core.transactions.WireTransaction"
    [list (groups.map componentGroup), privacySalt salt]

variable {cap : Nat} {outer : List Bytes}

theorem byteSequence_form (houter : Fits outer) {value : ByteSequence}
    (hmem : byteSequence value ∈ outer) (hcap : 1 ≤ cap) :
    ByteSequenceOf cap value (byteSequence value) := by
  obtain ⟨hbinary, hcomposite⟩ := binary_composite_form houter hmem List.mem_cons_self hcap
  exact ⟨_, hbinary, hcomposite⟩

theorem privacySalt_form (houter : Fits outer) {salt : PrivacySalt}
    (hmem : privacySalt salt ∈ outer) (hsalt : salt.bytes.length = 32) (hcap : 1 ≤ cap) :
    SaltOf cap salt (privacySalt salt) := by
  have hname : "net.corda:net.corda.core.contracts.PrivacySalt" ∈
      spelt "net.corda.core.contracts.PrivacySalt" := by
    decide
  obtain ⟨hbinary, hcomposite⟩ := binary_composite_form houter hmem hname hcap
  exact ⟨hsalt, _, hbinary, hcomposite⟩

theorem componentGroup_form (houter : Fits outer) {group : ComponentGroup}
    (hmem : componentGroup group ∈ outer) (hlength : group.components.length ≤ cap)
    (hcap : 2 ≤ cap) : GroupOf cap group (componentGroup group) := by
  have hfields : Fits [list (group.components.map byteSequence), int group.index] :=
    houter.of_composite hmem
  have hcomponents : Fits (group.components.map byteSequence) :=
    hfields.of_list List.mem_cons_self
  have hlist : ListWith cap (ByteSequenceOf cap) group.components
      (list (group.components.map byteSequence)) := by
    refine list_with_form hcomponents (fun value hvalue => ?_)
      (fun _ _ => composite_ne_nil _ _) hlength
    exact byteSequence_form hcomponents (List.mem_map_of_mem hvalue) (by omega)
  refine ⟨_, _, hlist, int_form _,
    composite_form (by decide) (houter.of_symbol hmem) hfields ?_ hcap⟩
  rw [List.forall_mem_cons, List.forall_mem_singleton]
  exact ⟨list_ne_nil _, int_ne_nil _⟩

theorem wireTransaction_form {groups : List ComponentGroup} {salt : PrivacySalt}
    (hfields : Fits [list (groups.map componentGroup), privacySalt salt])
    (hgroups : groups.length ≤ cap)
    (hlengths : ∀ group ∈ groups, group.components.length ≤ cap)
    (hsalt : salt.bytes.length = 32) (hcap : 2 ≤ cap) :
    TransactionOf cap groups salt (wireTransaction groups salt) := by
  have hlisted : Fits (groups.map componentGroup) := hfields.of_list List.mem_cons_self
  have hlist : ListWith cap (GroupOf cap) groups (list (groups.map componentGroup)) := by
    refine list_with_form hlisted (fun group hgroup => ?_)
      (fun _ _ => composite_ne_nil _ _) hgroups
    exact componentGroup_form hlisted (List.mem_map_of_mem hgroup) (hlengths group hgroup) hcap
  have hsaltForm : SaltOf cap salt (privacySalt salt) :=
    privacySalt_form hfields (List.mem_cons_of_mem _ List.mem_cons_self) hsalt (by omega)
  refine ⟨_, _, hlist, hsaltForm,
    composite_form (by decide) (by decide +kernel) hfields ?_ hcap⟩
  rw [List.forall_mem_cons, List.forall_mem_singleton]
  exact ⟨list_ne_nil _, composite_ne_nil _ _⟩

end Writing

/-! ## Streams of transactions -/

namespace Registry

/-- **The streams of wire transactions.**  Without a preamble and an envelope, exactly the
written forms of transactions whose groups are in order are decoded, each to the transaction
that was written. -/
theorem decodeRoot_wireTransaction_iff {settings : Settings}
    (hrequire : settings.framing.requirePreamble = false)
    (hunwrap : settings.framing.unwrapEnvelope = false) (hdepth : 8 ≤ settings.limits.maxDepth)
    {stream : Bytes} (hmagic : ¬ streamMagic <+: stream) (value : Known) :
    (standard settings).decodeRoot (.kind .wireTransaction) stream = .ok value ↔
      ∃ groups salt, ∃ horder : InOrder groups,
        TransactionOf settings.limits.maxCollectionLength groups salt stream ∧
          value = .wireTransaction ⟨groups, salt, orderFault?_eq_none_iff.mpr horder⟩ := by
  have hsettings := standard_settings settings
  have hgrammar : Grammar.target (standard settings) (settings.limits.maxDepth + 1) true
      (.kind .wireTransaction) = Known.wireTransaction <$>
        Grammar.typed (standard settings) .wireTransaction
          (Grammar.wireTransaction (standard settings)) :=
    Grammar.typed_map _ _ _ _
  rw [← hsettings] at hrequire hunwrap
  have hlevels : (standard settings).settings.limits.maxDepth < settings.limits.maxDepth + 1 := by
    rw [hsettings]
    exact Nat.lt_succ_self _
  rw [decodeRoot_iff_of_bare (standard_declared settings) hrequire hunwrap hmagic _ hlevels,
    hsettings, hgrammar, Grammar.map_iff]
  constructor
  · rintro ⟨w, hw, rfl⟩
    exact ⟨w.groups, w.salt, orderFault?_eq_none_iff.mp w.ordered,
      (Grammar.wireTransaction_written_iff hdepth).mp hw, rfl⟩
  · rintro ⟨groups, salt, horder, hwritten, rfl⟩
    exact ⟨_, (Grammar.wireTransaction_written_iff hdepth).mpr hwritten, rfl⟩

/-- One group with one component. -/
private def sampleGroups : List ComponentGroup := [⟨0, [⟨[0xaa]⟩]⟩]

/-- A salt of zeroes. -/
def zeroSalt : PrivacySalt := ⟨List.replicate 32 0x00⟩

theorem sample_wireTransaction_decoded :
    ∃ w, (standard ⟨.rejectAll, ⟨8, 2⟩, ⟨false, false⟩⟩).decodeRoot (.kind .wireTransaction)
        (Writing.wireTransaction sampleGroups zeroSalt) = .ok (.wireTransaction w) ∧
      w.groups = sampleGroups ∧ w.salt = zeroSalt := by
  have hfits : Fits [Writing.list (sampleGroups.map Writing.componentGroup),
      Writing.privacySalt zeroSalt] := by
    unfold Fits
    decide +kernel
  have hwritten : TransactionOf 2 sampleGroups zeroSalt
      (Writing.wireTransaction sampleGroups zeroSalt) :=
    Writing.wireTransaction_form hfits (by decide) (by decide) (by decide) (by decide)
  have horder : InOrder sampleGroups := orderFault?_eq_none_iff.mp (by decide)
  have hmagic : ¬ streamMagic <+: Writing.wireTransaction sampleGroups zeroSalt :=
    fun hfront => absurd (List.isPrefixOf_iff_prefix.mpr hfront) (by decide +kernel)
  refine ⟨_, (decodeRoot_wireTransaction_iff rfl rfl (by decide) hmagic _).mpr
    ⟨sampleGroups, zeroSalt, horder, hwritten, rfl⟩, rfl, rfl⟩

end Registry

end AmqpEnvelope
