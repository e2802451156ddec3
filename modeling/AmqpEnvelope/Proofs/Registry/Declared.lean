import AmqpEnvelope.Registry.Basic

/-!
# Registries of described types

A registry is *declared* if it comes from an empty one, under any settings, by
registering described types under their own descriptors, under further ones, and the
standard types, in any order.  Such a registry decodes composites as values of described
types or as nested streams; there is no script in it (`Declared.isTyped_of_resolve`).

The one fact about registration behind this is `resolve_register`: a registration
decides what its own descriptor resolves to, and nothing else.
-/

namespace AmqpEnvelope

/-- The constructor yields values of a described type, or nested streams. -/
def Constructor.IsTyped (c : Constructor) : Prop :=
  (∃ k, c = .described k) ∨ c = .nestedStream

namespace Registry

/-! ## Registration -/

theorem findEntry_insertEntry (d d' : Descriptor) (c : Constructor)
    (entries : List (Descriptor × Constructor)) :
    findEntry d' (insertEntry d c entries).2 =
      if d = d' then some c else findEntry d' entries := by
  induction entries with
  | nil => rfl
  | cons entry rest ih =>
      obtain ⟨key, constructor⟩ := entry
      simp only [insertEntry]
      split
      next hkey =>
        subst hkey
        simp only [findEntry]
        split <;> rfl
      next hkey =>
        split
        · rfl
        · simp only [findEntry, ih]
          by_cases hd' : key = d'
          · rw [if_pos hd', if_pos hd', if_neg fun hd => hkey (hd'.trans hd.symm)]
          · rw [if_neg hd', if_neg hd']

/-- A descriptor resolves to what was registered for it last. -/
theorem resolve_register (r : Registry) (d d' : Descriptor) (c : Constructor) :
    (r.register d c).2.resolve d' = if d = d' then some c else r.resolve d' :=
  findEntry_insertEntry d d' c r.entries

/-- All of these constructors registered, one after the other. -/
def registerAll (r : Registry) (entries : List (Descriptor × Constructor)) : Registry :=
  entries.foldl (fun r entry => (r.register entry.1 entry.2).2) r

theorem registerAll_cons (r : Registry) (entry : Descriptor × Constructor)
    (entries : List (Descriptor × Constructor)) :
    r.registerAll (entry :: entries) = (r.register entry.1 entry.2).2.registerAll entries := rfl

theorem registerAll_append (r : Registry) (earlier later : List (Descriptor × Constructor)) :
    r.registerAll (earlier ++ later) = (r.registerAll earlier).registerAll later :=
  List.foldl_append

theorem registerStandard_eq (r : Registry) : r.registerStandard = r.registerAll standardEntries :=
  rfl

/-! ## Declared registries -/

/-- What can be made of an empty registry by registering described types. -/
inductive Declared : Registry → Prop
  | empty (settings : Settings) : Declared (empty settings)
  /-- A type has been registered under its own descriptor. -/
  | kind (k : Kind) {r : Registry} (h : Declared r) : Declared (r.registerKind k).2
  /-- A type has been registered under a further descriptor. -/
  | further (k : Kind) (d : Descriptor) {r : Registry} (h : Declared r) :
      Declared (r.registerAlias k d).2
  /-- The standard types have been registered. -/
  | standardTypes {r : Registry} (h : Declared r) : Declared r.registerStandard

/-- A registry with the standard types is declared. -/
theorem standard_declared (settings : Settings) : (standard settings).Declared :=
  .standardTypes (.empty settings)

/-- Whatever the settings are, the registrations are the same. -/
theorem Declared.withSettings {r : Registry} (hr : r.Declared) (settings : Settings) :
    Declared { r with settings := settings } := by
  have hall : ∀ (entries : List (Descriptor × Constructor)) (r : Registry),
      { r.registerAll entries with settings := settings } =
        registerAll { r with settings := settings } entries := by
    intro entries
    induction entries with
    | nil => exact fun _ => rfl
    | cons entry rest ih => exact fun r => ih _
  induction hr with
  | empty _ => exact .empty settings
  | kind k _ ih => exact .kind k ih
  | further k d _ ih => exact .further k d ih
  | @standardTypes r _ ih =>
      have hsame : { r.registerStandard with settings := settings } =
          registerStandard { r with settings := settings } := hall standardEntries r
      rw [hsame]
      exact .standardTypes ih

/-- Whatever is registered among typed constructors, they stay typed. -/
private theorem isTyped_of_resolve_register {r : Registry} {d d' : Descriptor}
    {c c' : Constructor} (hc : c.IsTyped) (hr : ∀ d c, r.resolve d = some c → c.IsTyped)
    (h : (r.register d c).2.resolve d' = some c') : c'.IsTyped := by
  rw [resolve_register] at h
  split at h
  · cases h
    exact hc
  · exact hr d' c' h

private theorem isTyped_of_resolve_registerAll (entries : List (Descriptor × Constructor))
    (hentries : ∀ entry ∈ entries, entry.2.IsTyped) {r : Registry}
    (hr : ∀ d c, r.resolve d = some c → c.IsTyped) (d : Descriptor) (c : Constructor)
    (h : (r.registerAll entries).resolve d = some c) : c.IsTyped := by
  induction entries generalizing r with
  | nil => exact hr d c h
  | cons entry rest ih =>
      refine ih (fun e he => hentries e (List.mem_cons_of_mem _ he)) (fun d' c' h' => ?_) h
      exact isTyped_of_resolve_register (hentries entry List.mem_cons_self) hr h'

private theorem isTyped_of_mem_standardEntries :
    ∀ entry ∈ standardEntries, entry.2.IsTyped := by
  intro entry hentry
  rcases List.mem_append.mp hentry with hkind | hrest
  · obtain ⟨k, -, rfl⟩ := List.mem_map.mp hkind
    exact .inl ⟨k, rfl⟩
  · rcases List.mem_cons.mp hrest with rfl | hlast
    · exact .inl ⟨.byteSequence, rfl⟩
    · obtain rfl := List.mem_singleton.mp hlast
      exact .inr rfl

/-- No descriptor resolves to a script in a declared registry. -/
theorem Declared.isTyped_of_resolve {r : Registry} (hr : r.Declared) (d : Descriptor)
    (c : Constructor) (h : r.resolve d = some c) : c.IsTyped := by
  induction hr generalizing d c with
  | empty settings => cases h
  | kind k _ ih => exact isTyped_of_resolve_register (.inl ⟨k, rfl⟩) ih h
  | further k d' _ ih => exact isTyped_of_resolve_register (.inl ⟨k, rfl⟩) ih h
  | standardTypes _ ih =>
      exact isTyped_of_resolve_registerAll standardEntries isTyped_of_mem_standardEntries ih d c h

/-- Durations by a numeric descriptor, for runs on short inputs. -/
def numberedDurations : Registry :=
  ((Registry.empty Settings.standard).registerAlias .duration (.code 7)).2

theorem numberedDurations_declared : numberedDurations.Declared :=
  .further .duration (.code 7) (.empty Settings.standard)

/-- Nine seconds, as the fields of a duration. -/
def nineSecondFields : Bytes := [0xc0, 0x04, 0x02, 0x53, 0x09, 0x43]

/-- Nine seconds under the number of those durations. -/
def nineSeconds : Bytes := [0x00, 0x53, 0x07] ++ nineSecondFields

end Registry

end AmqpEnvelope
