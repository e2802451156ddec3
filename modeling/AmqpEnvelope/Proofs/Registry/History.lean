import AmqpEnvelope.Proofs.Registry.Order
import AmqpEnvelope.Proofs.Registry.Standard
import Mathlib.Data.List.Sort

/-!
# Registries after any history

A registry is made empty or with the standard types, and from then on constructors are
registered in it, one by one or all the standard ones at once (`Registry.Call`).  What has been
registered so far is its history, a list of constructors by key.  Whatever the history is, the
registry is a map: a key stands for the last constructor that was registered under it
(`Registry.run_lastWins`).

Two invariants carry this.  The entries ascend (`Registry.Ascending`), so that a key has one
place and a registry is determined by what it resolves; and a run of calls is a run of single
registrations on an empty registry (`Registry.run_eq_registerAll`), so that only these have to be
looked at.
-/

namespace AmqpEnvelope

namespace Registry

variable {r r' : Registry} {d d' : Descriptor} {c c' : Constructor}

/-! ## Ascending entries -/

section Entries

variable {entries entries' : List (Descriptor × Constructor)}

/-- Every entry stands before the ones that follow. -/
def Ascending (entries : List (Descriptor × Constructor)) : Prop :=
  entries.Pairwise fun a b => a.1.before b.1 = true

theorem eq_or_mem_of_mem_insertEntry {entry : Descriptor × Constructor}
    (h : entry ∈ (insertEntry d c entries).2) : entry = (d, c) ∨ entry ∈ entries := by
  induction entries with
  | nil => exact .inl (List.mem_singleton.mp h)
  | cons first rest ih =>
      simp only [insertEntry] at h
      split at h
      · exact (List.mem_cons.mp h).imp_right (List.mem_cons_of_mem _)
      · split at h
        · exact List.mem_cons.mp h
        · rcases List.mem_cons.mp h with rfl | hrest
          · exact .inr List.mem_cons_self
          · exact (ih hrest).imp_right (List.mem_cons_of_mem _)

theorem Ascending.insertEntry (h : Ascending entries) : Ascending (insertEntry d c entries).2 := by
  induction entries with
  | nil => exact List.pairwise_singleton _ _
  | cons first rest ih =>
      obtain ⟨hfirst, hrest⟩ := List.pairwise_cons.mp h
      simp only [Registry.insertEntry]
      split
      next hkey => exact List.pairwise_cons.mpr ⟨hkey ▸ hfirst, hrest⟩
      next hkey =>
        split
        next hbefore =>
          refine List.pairwise_cons.mpr ⟨fun entry hentry => ?_, h⟩
          rcases List.mem_cons.mp hentry with rfl | hlater
          · exact hbefore
          · exact Descriptor.before_trans hbefore (hfirst entry hlater)
        next hbefore =>
          refine List.pairwise_cons.mpr ⟨fun entry hentry => ?_, ih hrest⟩
          rcases eq_or_mem_of_mem_insertEntry hentry with rfl | hlater
          · exact Descriptor.before_of_not_before (Ne.symm hkey) hbefore
          · exact hfirst entry hlater

theorem findEntry_eq_none_of_forall_ne (h : ∀ entry ∈ entries, entry.1 ≠ d) :
    findEntry d entries = none := by
  induction entries with
  | nil => rfl
  | cons first rest ih =>
      rw [findEntry, if_neg (h first List.mem_cons_self)]
      exact ih fun entry hentry => h entry (List.mem_cons_of_mem _ hentry)

/-- The constructor that gives way is the one that stood under the key. -/
theorem Ascending.insertEntry_fst (h : Ascending entries) :
    (Registry.insertEntry d c entries).1 = findEntry d entries := by
  induction entries with
  | nil => rfl
  | cons first rest ih =>
      obtain ⟨hfirst, hrest⟩ := List.pairwise_cons.mp h
      simp only [Registry.insertEntry, findEntry]
      split
      · rfl
      · split
        next hbefore =>
          -- The search stops at a larger key, and all the rest are larger still.
          refine (findEntry_eq_none_of_forall_ne fun entry hentry hkey => ?_).symm
          exact Descriptor.not_before_self d
            (Descriptor.before_trans hbefore (hkey ▸ hfirst entry hentry))
        next => exact ih hrest

theorem Ascending.findEntry_eq_some_iff (h : Ascending entries) :
    findEntry d entries = some c ↔ (d, c) ∈ entries := by
  induction entries with
  | nil => exact iff_of_false nofun List.not_mem_nil
  | cons first rest ih =>
      obtain ⟨hfirst, hrest⟩ := List.pairwise_cons.mp h
      obtain ⟨key, constructor⟩ := first
      rw [findEntry, List.mem_cons, Prod.mk.injEq]
      split
      next hkey =>
        subst hkey
        have hnot : (key, c) ∉ rest :=
          fun hmem => Descriptor.not_before_self key (hfirst _ hmem)
        rw [or_iff_left hnot, Option.some_inj]
        exact ⟨fun hc => ⟨rfl, hc.symm⟩, fun hc => hc.2.symm⟩
      next hkey =>
        rw [ih hrest]
        exact ⟨.inr, fun hmem => hmem.resolve_left fun hd => hkey hd.1.symm⟩

theorem mem_keys_iff : d ∈ entries.map Prod.fst ↔ (findEntry d entries).isSome = true := by
  induction entries with
  | nil => exact iff_of_false List.not_mem_nil nofun
  | cons first rest ih =>
      rw [List.map_cons, List.mem_cons, findEntry]
      split
      next hkey => exact iff_of_true (.inl hkey.symm) rfl
      next hkey => rw [or_iff_right (Ne.symm hkey), ih]

/-- Ascending entries are determined by what is found in them. -/
theorem Ascending.ext (h : Ascending entries) (h' : Ascending entries')
    (hsame : ∀ d, findEntry d entries = findEntry d entries') : entries = entries' := by
  have : Std.Irrefl fun a b : Descriptor × Constructor => a.1.before b.1 = true :=
    ⟨fun a => Descriptor.not_before_self a.1⟩
  have : Std.Antisymm fun a b : Descriptor × Constructor => a.1.before b.1 = true :=
    ⟨fun a _ hab hba =>
      absurd (Descriptor.before_trans hab hba) (Descriptor.not_before_self a.1)⟩
  refine List.Pairwise.eq_of_mem_iff h h' fun entry => ?_
  rw [← h.findEntry_eq_some_iff, ← h'.findEntry_eq_some_iff, hsame]

end Entries

/-! ## Single registrations -/

theorem register_ascending (h : Ascending r.entries) :
    Ascending (r.register d c).2.entries := Ascending.insertEntry h

theorem register_fst (h : Ascending r.entries) : (r.register d c).1 = r.resolve d :=
  h.insertEntry_fst

theorem registerAll_ascending (history : List (Descriptor × Constructor))
    (h : Ascending r.entries) : Ascending (r.registerAll history).entries := by
  induction history generalizing r with
  | nil => exact h
  | cons entry rest ih => exact ih (register_ascending h)

/-- A registry is determined by its settings and by what it resolves. -/
theorem eq_of_resolve_eq (h : Ascending r.entries) (h' : Ascending r'.entries)
    (hsettings : r.settings = r'.settings) (hsame : ∀ d, r.resolve d = r'.resolve d) : r = r' := by
  obtain ⟨entries, settings⟩ := r
  obtain ⟨entries', settings'⟩ := r'
  obtain rfl : settings = settings' := hsettings
  obtain rfl : entries = entries' := h.ext h' hsame
  rfl

/-- Under different keys it does not matter what is registered first. -/
theorem register_register_comm (h : Ascending r.entries) (hne : d ≠ d') :
    ((r.register d c).2.register d' c').2 = ((r.register d' c').2.register d c).2 := by
  refine eq_of_resolve_eq (register_ascending (register_ascending h))
    (register_ascending (register_ascending h)) rfl fun key => ?_
  simp only [resolve_register]
  by_cases hd : d = key
  · rw [if_pos hd, if_pos hd, if_neg fun hd' => hne (hd.trans hd'.symm)]
  · rw [if_neg hd, if_neg hd]

/-! ## The standard types -/

theorem registerStandard_resolve_of_mem (hmem : (d, c) ∈ standardEntries) :
    r.registerStandard.resolve d = some c :=
  resolve_registerAll_of_mem standardEntries_nodup hmem

theorem registerStandard_resolve_of_not_mem (hd : d ∉ standardEntries.map Prod.fst) :
    r.registerStandard.resolve d = r.resolve d :=
  resolve_registerAll_of_not_mem hd

/-- Once the standard types are registered, registering them again changes nothing. -/
theorem registerStandard_registerStandard (h : Ascending r.entries) :
    r.registerStandard.registerStandard = r.registerStandard := by
  have honce : Ascending r.registerStandard.entries := registerAll_ascending standardEntries h
  refine eq_of_resolve_eq (registerAll_ascending standardEntries honce) honce
    (settings_registerAll standardEntries r.registerStandard) fun d => ?_
  by_cases hd : d ∈ standardEntries.map Prod.fst
  · obtain ⟨⟨_, c⟩, hmem, rfl⟩ := List.mem_map.mp hd
    rw [registerStandard_resolve_of_mem hmem, registerStandard_resolve_of_mem hmem]
  · rw [registerStandard_resolve_of_not_mem hd]

/-! ## Calls -/

/-- How the key of a registration is given. -/
inductive Designation where
  /-- As it is spelt in streams. -/
  | spelt (text : String)
  /-- By the name of a type, which never is a fingerprint. -/
  | named (name : String)
  | numbered (n : UInt64)
  | exact (d : Descriptor)

/-- The key that is meant. -/
def Designation.key : Designation → Descriptor
  | spelt text => .ofWireSymbol text
  | named name => .ofName name
  | numbered n => .code n
  | exact d => d

/-- A call that registers one constructor. -/
inductive Registration where
  /-- Any constructor, under any key. -/
  | custom (under : Designation) (c : Constructor)
  /-- A described type under its own key. -/
  | kind (k : Kind)
  /-- A described type under a further key. -/
  | further (k : Kind) (under : Designation)

namespace Registration

/-- The key under which the constructor is registered. -/
def key : Registration → Descriptor
  | custom under _ => under.key
  | kind k => k.descriptor
  | further _ under => under.key

/-- The constructor that is registered. -/
def made : Registration → Constructor
  | custom _ c => c
  | kind k => .described k
  | further k _ => .described k

/-- The call, with the constructor that is replaced. -/
def apply (registration : Registration) (r : Registry) : Option Constructor × Registry :=
  match registration with
  | custom under c => r.register under.key c
  | kind k => r.registerKind k
  | further k under => r.registerAlias k under.key

theorem apply_eq (registration : Registration) (r : Registry) :
    registration.apply r = r.register registration.key registration.made := by
  cases registration <;> rfl

end Registration

/-- What may be called on a registry to change it. -/
inductive Call where
  | one (registration : Registration)
  | standardTypes

namespace Call

/-- The registry after the call. -/
def apply (r : Registry) : Call → Registry
  | one registration => (registration.apply r).2
  | standardTypes => r.registerStandard

/-- The constructors that the call registers, by key and in order. -/
def registered : Call → List (Descriptor × Constructor)
  | one registration => [(registration.key, registration.made)]
  | standardTypes => standardEntries

theorem apply_eq_registerAll (call : Call) (r : Registry) :
    call.apply r = r.registerAll call.registered := by
  cases call with
  | one registration => exact congrArg Prod.snd (registration.apply_eq r)
  | standardTypes => rfl

end Call

/-- How a registry is made. -/
inductive Origin where
  | empty (settings : Settings)
  | standard (settings : Settings)

namespace Origin

/-- The registry that is made. -/
def registry : Origin → Registry
  | empty settings => .empty settings
  | standard settings => .standard settings

/-- What is registered in it from the start. -/
def registered : Origin → List (Descriptor × Constructor)
  | empty _ => []
  | standard _ => standardEntries

/-- The settings that it carries. -/
def settings : Origin → Settings
  | empty settings => settings
  | standard settings => settings

end Origin

/-- The registry after some calls. -/
def run (origin : Origin) (calls : List Call) : Registry := calls.foldl Call.apply origin.registry

/-- All the constructors registered by then, by key and in order. -/
def history (origin : Origin) (calls : List Call) : List (Descriptor × Constructor) :=
  origin.registered ++ calls.flatMap Call.registered

/-- A run of calls is a run of single registrations on an empty registry. -/
theorem run_eq_registerAll (origin : Origin) (calls : List Call) :
    run origin calls = (empty origin.settings).registerAll (history origin calls) := by
  have hcalls : ∀ r : Registry,
      calls.foldl Call.apply r = r.registerAll (calls.flatMap Call.registered) := by
    induction calls with
    | nil => exact fun _ => rfl
    | cons call rest ih =>
        intro r
        rw [List.foldl_cons, List.flatMap_cons, registerAll_append, ih, Call.apply_eq_registerAll]
  rw [run, hcalls, history, registerAll_append]
  cases origin <;> rfl

theorem run_ascending (origin : Origin) (calls : List Call) :
    Ascending (run origin calls).entries := by
  rw [run_eq_registerAll]
  exact registerAll_ascending _ List.Pairwise.nil

/-! ## The last registration wins -/

section LastUnder

variable {settings : Settings} {history : List (Descriptor × Constructor)}

/-- The last constructor of the history under a key. -/
def LastUnder (history : List (Descriptor × Constructor)) (d : Descriptor) (c : Constructor) :
    Prop :=
  ∃ earlier later, history = earlier ++ (d, c) :: later ∧ d ∉ later.map Prod.fst

theorem exists_lastUnder (h : d ∈ history.map Prod.fst) : ∃ c, LastUnder history d c := by
  -- A key that comes again decides in the rest, any other where it stands.
  induction history with
  | nil => cases h
  | cons first rest ih =>
      by_cases hrest : d ∈ rest.map Prod.fst
      · obtain ⟨c, earlier, later, rfl, hlater⟩ := ih hrest
        exact ⟨c, first :: earlier, later, rfl, hlater⟩
      · obtain rfl : d = first.1 := (List.mem_cons.mp h).resolve_right hrest
        exact ⟨first.2, [], rest, rfl, hrest⟩

theorem resolve_of_lastUnder (h : LastUnder history d c) :
    (r.registerAll history).resolve d = some c := by
  obtain ⟨earlier, later, rfl, hlater⟩ := h
  rw [registerAll_append, registerAll_cons, resolve_registerAll_of_not_mem hlater,
    resolve_register, if_pos rfl]

theorem resolve_eq_some_iff :
    ((empty settings).registerAll history).resolve d = some c ↔ LastUnder history d c := by
  refine ⟨fun h => ?_, resolve_of_lastUnder⟩
  by_cases hd : d ∈ history.map Prod.fst
  · obtain ⟨last, hlast⟩ := exists_lastUnder hd
    obtain rfl : last = c := Option.some_inj.mp ((resolve_of_lastUnder hlast).symm.trans h)
    exact hlast
  · rw [resolve_registerAll_of_not_mem hd] at h
    cases h

theorem resolve_eq_none_iff :
    ((empty settings).registerAll history).resolve d = none ↔ d ∉ history.map Prod.fst := by
  refine ⟨fun h hd => ?_, resolve_registerAll_of_not_mem⟩
  obtain ⟨last, hlast⟩ := exists_lastUnder hd
  rw [resolve_of_lastUnder hlast] at h
  cases h

end LastUnder

/-- A registry with a history is a map from keys to the last constructors under them. -/
structure LastWins (r : Registry) (history : List (Descriptor × Constructor)) : Prop where
  resolve_eq_some_iff : ∀ d c, r.resolve d = some c ↔ LastUnder history d c
  resolve_eq_none_iff : ∀ d, r.resolve d = none ↔ d ∉ history.map Prod.fst
  /-- A registration gives back what stood under its key. -/
  replaced : ∀ registration : Registration,
    (registration.apply r).1 = r.resolve registration.key
  others_kept : ∀ (registration : Registration) (d : Descriptor), d ≠ registration.key →
    (registration.apply r).2.resolve d = r.resolve d
  /-- Each key is listed after all smaller ones, so no key is listed twice. -/
  descriptors_sorted : r.descriptors.Pairwise Descriptor.Precedes
  mem_descriptors_iff : ∀ d, d ∈ r.descriptors ↔ r.contains d = true
  length_descriptors : r.descriptors.length = r.size
  /-- Under different keys two registrations may be made in either order. -/
  commute : ∀ first second : Registration, first.key ≠ second.key →
    (second.apply (first.apply r).2).2 = (first.apply (second.apply r).2).2 ∧
      (second.apply (first.apply r).2).1 = (second.apply r).1
  /-- The standard types come back under their keys, whatever stood there. -/
  standard_restored : ∀ d c, (d, c) ∈ standardEntries → r.registerStandard.resolve d = some c
  standard_others_kept : ∀ d, d ∉ standardEntries.map Prod.fst →
    r.registerStandard.resolve d = r.resolve d
  standard_idempotent : r.registerStandard.registerStandard = r.registerStandard
  /-- A typed field accepts its own key, and those whose last constructor was declared for it. -/
  accepts_iff : ∀ k d, r.accepts k d = true ↔
    d = k.descriptor ∨ ∃ c, LastUnder history d c ∧ c.produces = some k

/-- **The last registration wins**, whatever the registry was made with and whatever has been
called on it since. -/
theorem run_lastWins (origin : Origin) (calls : List Call) :
    LastWins (run origin calls) (history origin calls) := by
  have hascending := run_ascending origin calls
  have hsome : ∀ d c, (run origin calls).resolve d = some c ↔
      LastUnder (history origin calls) d c := by
    rw [run_eq_registerAll]
    exact fun _ _ => resolve_eq_some_iff
  constructor
  case resolve_eq_some_iff => exact hsome
  case resolve_eq_none_iff =>
    rw [run_eq_registerAll]
    exact fun _ => resolve_eq_none_iff
  case replaced =>
    intro registration
    rw [registration.apply_eq, register_fst hascending]
  case others_kept =>
    intro registration d hd
    rw [registration.apply_eq, resolve_register, if_neg (Ne.symm hd)]
  case descriptors_sorted =>
    exact List.pairwise_map.mpr (hascending.imp Descriptor.before_iff.mp)
  case mem_descriptors_iff => exact fun _ => mem_keys_iff
  case length_descriptors => exact List.length_map _
  case commute =>
    intro first second hne
    rw [first.apply_eq, second.apply_eq, second.apply_eq, first.apply_eq]
    refine ⟨register_register_comm hascending hne, ?_⟩
    rw [register_fst (register_ascending hascending), register_fst hascending, resolve_register,
      if_neg hne]
  case standard_restored => exact fun _ _ => registerStandard_resolve_of_mem
  case standard_others_kept => exact fun _ => registerStandard_resolve_of_not_mem
  case standard_idempotent => exact registerStandard_registerStandard hascending
  case accepts_iff =>
    intro k d
    rw [accepts, Bool.or_eq_true, beq_iff_eq, Option.any_eq_true]
    simp only [beq_iff_eq, hsome]

/-- Two spellings of one name are one key. -/
example : (run (.empty Settings.standard)
      [.one (.further .duration (.spelt "com.example.Time")),
        .one (.further .instant (.named "net.corda:com.example.Time"))]).entries =
    [(.symbol "com.example.Time", .described .instant)] := by
  decide +kernel

end Registry

end AmqpEnvelope
