import AmqpEnvelope.Proofs.Registry.Declared

/-!
# The standard registry

Which descriptors the typed fields of the standard types accept: those of a type its own,
and those of byte sequences also that of byte windows.
-/

namespace AmqpEnvelope

namespace Registry

variable {settings : Settings} {k : Kind} {d : Descriptor}

/-- What a sequence of registrations adds is one of the entries registered. -/
theorem mem_of_resolve_registerAll {entries : List (Descriptor × Constructor)} {r : Registry}
    {c : Constructor} (h : (r.registerAll entries).resolve d = some c) :
    (d, c) ∈ entries ∨ r.resolve d = some c := by
  induction entries generalizing r with
  | nil => exact .inr h
  | cons entry rest ih =>
      rcases ih h with hrest | hfirst
      · exact .inl (List.mem_cons_of_mem _ hrest)
      · rw [resolve_register] at hfirst
        split at hfirst
        next hd =>
          cases hfirst
          exact .inl (hd ▸ List.mem_cons_self)
        next => exact .inr hfirst

/-- Registrations leave the settings as they are. -/
theorem settings_registerAll (entries : List (Descriptor × Constructor)) (r : Registry) :
    (r.registerAll entries).settings = r.settings := by
  induction entries generalizing r with
  | nil => rfl
  | cons entry rest ih => exact ih _

@[simp] theorem standard_settings (settings : Settings) :
    (standard settings).settings = settings :=
  settings_registerAll standardEntries (empty settings)

/-- A descriptor that is not among the registrations resolves as before. -/
theorem resolve_registerAll_of_not_mem {entries : List (Descriptor × Constructor)} {r : Registry}
    (hd : d ∉ entries.map Prod.fst) : (r.registerAll entries).resolve d = r.resolve d := by
  induction entries generalizing r with
  | nil => rfl
  | cons entry rest ih =>
      rw [List.map_cons, List.mem_cons, not_or] at hd
      rw [registerAll_cons, ih hd.2, resolve_register, if_neg (Ne.symm hd.1)]

/-- Under different descriptors no registration undoes another. -/
theorem resolve_registerAll_of_mem {entries : List (Descriptor × Constructor)} {r : Registry}
    {c : Constructor} (hnodup : (entries.map Prod.fst).Nodup) (hmem : (d, c) ∈ entries) :
    (r.registerAll entries).resolve d = some c := by
  induction entries generalizing r with
  | nil => cases hmem
  | cons entry rest ih =>
      rw [List.map_cons, List.nodup_cons] at hnodup
      rw [registerAll_cons]
      rcases List.mem_cons.mp hmem with rfl | hrest
      · rw [resolve_registerAll_of_not_mem hnodup.1, resolve_register, if_pos rfl]
      · exact ih hnodup.2 hrest

theorem standardEntries_nodup : (standardEntries.map Prod.fst).Nodup := by
  decide +kernel

/-- The standard registry resolves the standard entries, and nothing else. -/
theorem standard_resolve_iff {c : Constructor} :
    (standard settings).resolve d = some c ↔ (d, c) ∈ standardEntries := by
  rw [standard, registerStandard_eq]
  exact ⟨fun h => (mem_of_resolve_registerAll h).resolve_right nofun,
    resolve_registerAll_of_mem standardEntries_nodup⟩

/-- A typed field of a standard registry accepts the descriptor of its type; a byte
sequence may be a byte window. -/
theorem standard_accepts_iff : (standard settings).accepts k d = true ↔
    d = k.descriptor ∨ (k = .byteSequence ∧ d = Descriptor.ofWireSymbol byteWindowText) := by
  rw [accepts, Bool.or_eq_true, beq_iff_eq, Option.any_eq_true]
  constructor
  · rintro (hown | ⟨c, hresolve, hproduces⟩)
    · exact .inl hown
    · rw [beq_iff_eq] at hproduces
      rcases List.mem_append.mp (standard_resolve_iff.mp hresolve) with hkind | hrest
      · obtain ⟨k', -, hentry⟩ := List.mem_map.mp hkind
        cases hentry
        cases hproduces
        exact .inl rfl
      · simp only [List.mem_cons, Prod.mk.injEq, List.not_mem_nil, or_false] at hrest
        rcases hrest with ⟨rfl, rfl⟩ | ⟨rfl, rfl⟩
        · cases hproduces
          exact .inr ⟨rfl, rfl⟩
        · cases hproduces
          exact .inl rfl
  · rintro (hown | ⟨rfl, rfl⟩)
    · exact .inl hown
    · have hwindow : (Descriptor.ofWireSymbol byteWindowText, Constructor.described .byteSequence) ∈
          standardEntries := List.mem_append_right _ List.mem_cons_self
      exact .inr ⟨_, standard_resolve_iff.mpr hwindow, beq_self_eq_true _⟩

end Registry

end AmqpEnvelope
