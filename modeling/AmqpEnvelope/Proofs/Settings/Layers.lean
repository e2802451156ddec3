import AmqpEnvelope.Proofs.Settings.Entry
import AmqpEnvelope.Settings.Load

/-!
# Layers of settings

A document and an environment are two layers over the standard settings.  Each gives
values to some entries and none to the others; settings are `LaidOver` a base by a layer if
they have what the layer gives and otherwise what the base has.  There is one such result for each
base and layer, since no entry depends on another.

`Settings.layered_within_bounds` says what comes of the layers: which documents are accepted,
which settings they give, how an environment changes them, and that nothing comes out that is
not within the bounds.  It holds for every reader of documents that keeps to the forms of their
values.
-/

namespace AmqpEnvelope

namespace Settings

/-! ## Layers -/

/-- What a layer gives to each entry, if anything. -/
abbrev Layer := (s : Setting) → s.Carrier → Prop

variable {layer : Layer} {found : (s : Setting) → Option s.Carrier} {base settings : Settings}
  {s : Setting}

/-- The settings have what a layer gives to an entry, and what the base has where it gives
nothing. -/
def LaidOver (layer : Layer) (base settings : Settings) : Prop :=
  ∀ s : Setting, (∀ x, layer s x → s.get settings = x) ∧
    ((∀ x, ¬ layer s x) → s.get settings = s.get base)

theorem LaidOver.unique {a b : Settings} (ha : LaidOver layer base a) (hb : LaidOver layer base b) :
    a = b := by
  refine eq_of_get fun s => ?_
  by_cases h : ∃ x, layer s x
  · obtain ⟨x, hx⟩ := h
    rw [(ha s).1 x hx, (hb s).1 x hx]
  · rw [(ha s).2 fun x hx => h ⟨x, hx⟩, (hb s).2 fun x hx => h ⟨x, hx⟩]

/-- Put in what was found for an entry. -/
def put (found : (s : Setting) → Option s.Carrier) (settings : Settings) (s : Setting) : Settings :=
  match found s with
  | some value => s.set value settings
  | none => settings

theorem get_put_self (settings : Settings) (s : Setting) :
    s.get (put found settings s) = (found s).getD (s.get settings) := by
  unfold put
  cases found s with
  | none => rfl
  | some value => exact Setting.get_set_self value

theorem get_put_of_ne {t : Setting} (h : s ≠ t) (settings : Settings) :
    s.get (put found settings t) = s.get settings := by
  unfold put
  cases found t with
  | none => rfl
  | some value => exact Setting.get_set_of_ne h value

/-- What is put in for other entries does not matter, and neither does their order. -/
theorem get_foldl_put (entries : List Setting) (settings : Settings) (s : Setting) :
    s.get (entries.foldl (put found) settings) =
      if s ∈ entries then (found s).getD (s.get settings) else s.get settings := by
  induction entries generalizing settings with
  | nil => rfl
  | cons t rest ih =>
      rw [List.foldl_cons, ih]
      by_cases hst : s = t
      · subst hst
        rw [get_put_self, if_pos List.mem_cons_self]
        cases found s <;> simp
      · rw [get_put_of_ne hst]
        simp only [List.mem_cons, hst, false_or]

/-- What was found for the entries is laid over the settings. -/
theorem laidOver_foldl_put (hfound : ∀ s x, layer s x ↔ found s = some x) (base : Settings) :
    LaidOver layer base (Setting.all.foldl (put found) base) := by
  intro s
  rw [get_foldl_put, if_pos s.mem_all]
  constructor
  · intro x hx
    rw [(hfound s x).mp hx, Option.getD_some]
  · intro hnone
    cases h : found s with
    | none => rfl
    | some x => exact absurd ((hfound s x).mpr h) (hnone x)

/-! ## The layer of a document -/

section

variable {reader : DocumentReader} (form : reader.Value → Toml.Form reader.Value)
  {root group value : reader.Value} {groups : String → Option reader.Value}

open DocumentReader

/-- A document has a value at the place of an entry. -/
def Places (root : reader.Value) (s : Setting) (value : reader.Value) : Prop :=
  ∃ group, Holds form SettingGroup.names s.group.name root group ∧
    Holds form s.group.fields s.name group value

/-- A document gives a value to an entry. -/
def InDocument (root : reader.Value) (s : Setting) (x : s.Carrier) : Prop :=
  ∃ value, Places form root s value ∧ s.Means form value x

/-- Everything in a document that concerns the settings has the right type. -/
structure WellTyped (root : reader.Value) : Prop where
  groups : ∀ (g : SettingGroup) (group : reader.Value),
    Holds form SettingGroup.names g.name root group → IsRecord form g.fields group
  values : ∀ (s : Setting) (value : reader.Value), Places form root s value →
    ∃ x, s.Means form value x

variable {form}

theorem given_of_no_group (hroot : reader.record? SettingGroup.names root = some groups)
    (h : groups s.group.name = none) : given reader root s = some none := by
  simp only [given, hroot, h, Option.bind_eq_bind, Option.bind_some]
  rfl

theorem given_of_group (hroot : reader.record? SettingGroup.names root = some groups)
    (h : groups s.group.name = some group) : given reader root s =
      (reader.record? s.group.fields group).bind fun part =>
        match part s.name with
        | none => some none
        | some value => (s.ofValue? reader value).map some := by
  simp only [given, hroot, h, Option.bind_eq_bind, Option.bind_some]
  refine Option.bind_congr fun part _ => ?_
  cases part s.name with
  | none => rfl
  | some value => exact Option.map_eq_bind.symm

/-- The entries are read in turn, and what is found is put in. -/
theorem foldlM_given_eq_some_iff {result : Settings} (entries : List Setting)
    (settings : Settings) :
    entries.foldlM
        (fun settings s => do
          match ← given reader root s with
          | some value => return s.set value settings
          | none => return settings)
        settings = some result ↔
      (∀ s ∈ entries, given reader root s ≠ none) ∧
        entries.foldl (put fun s => (given reader root s).join) settings = result := by
  induction entries generalizing settings with
  | nil => simp
  | cons s rest ih =>
      rw [List.foldlM_cons, List.foldl_cons, List.forall_mem_cons]
      have hput : put (fun s => (given reader root s).join) settings s =
          match (given reader root s).join with
          | some value => s.set value settings
          | none => settings := rfl
      rw [hput]
      rcases given reader root s with - | - | value
      · simp
      · simpa using ih settings
      · simpa using ih (s.set value settings)

variable (hreader : reader.KeepsTo form)
include hreader

theorem given_of_not_isRecord (hgroup : Holds form SettingGroup.names s.group.name root group)
    (h : ¬ IsRecord form s.group.fields group) : given reader root s = none := by
  obtain ⟨groups, hroot⟩ := hreader.exists_record_of_holds hgroup
  have hfound := (hreader.holds_iff s.group.name_mem_names hroot).mp hgroup
  have hnone : reader.record? s.group.fields group = none := by
    rw [hreader.isRecord_iff, not_exists] at h
    exact Option.eq_none_iff_forall_ne_some.mpr h
  rw [given_of_group hroot hfound, hnone, Option.bind_none]

theorem given_of_places (h : Places form root s value) :
    given reader root s = (s.ofValue? reader value).map some := by
  obtain ⟨group, hgroup, hvalue⟩ := h
  obtain ⟨groups, hroot⟩ := hreader.exists_record_of_holds hgroup
  obtain ⟨part, hread⟩ := hreader.exists_record_of_holds hvalue
  have hfound := (hreader.holds_iff s.group.name_mem_names hroot).mp hgroup
  have hpart := (hreader.holds_iff s.name_mem_fields hread).mp hvalue
  rw [given_of_group hroot hfound, hread, Option.bind_some, hpart]

theorem given_of_not_places (hroot : IsRecord form SettingGroup.names root)
    (hrecord : ∀ group, Holds form SettingGroup.names s.group.name root group →
      IsRecord form s.group.fields group)
    (h : ∀ value, ¬ Places form root s value) : given reader root s = some none := by
  obtain ⟨groups, hroot⟩ := hreader.isRecord_iff.mp hroot
  cases hfound : groups s.group.name with
  | none => exact given_of_no_group hroot hfound
  | some group =>
      have hgroup := (hreader.holds_iff s.group.name_mem_names hroot).mpr hfound
      obtain ⟨part, hread⟩ := hreader.isRecord_iff.mp (hrecord group hgroup)
      rw [given_of_group hroot hfound, hread, Option.bind_some]
      cases hpart : part s.name with
      | none => rfl
      | some value =>
          exact absurd ⟨group, hgroup, (hreader.holds_iff s.name_mem_fields hread).mpr hpart⟩
            (h value)

/-- An entry can be read, be it there or not, if what concerns it has the right type. -/
theorem given_ne_none_iff (hroot : IsRecord form SettingGroup.names root) :
    given reader root s ≠ none ↔
      (∀ group, Holds form SettingGroup.names s.group.name root group →
        IsRecord form s.group.fields group) ∧
          ∀ value, Places form root s value → ∃ x, s.Means form value x := by
  constructor
  · intro h
    refine ⟨fun group hgroup => ?_, fun value hvalue => ?_⟩
    · by_contra hrecord
      exact h (given_of_not_isRecord hreader hgroup hrecord)
    · rw [given_of_places hreader hvalue, Ne, Option.map_eq_none_iff] at h
      obtain ⟨x, hx⟩ := Option.ne_none_iff_exists'.mp h
      exact ⟨x, (Setting.ofValue?_eq_some_iff hreader).mp hx⟩
  · rintro ⟨hrecord, hvalues⟩
    by_cases h : ∃ value, Places form root s value
    · obtain ⟨value, hvalue⟩ := h
      obtain ⟨x, hx⟩ := hvalues value hvalue
      rw [given_of_places hreader hvalue, (Setting.ofValue?_eq_some_iff hreader).mpr hx]
      exact Option.some_ne_none _
    · rw [given_of_not_places hreader hroot hrecord fun value hvalue => h ⟨value, hvalue⟩]
      exact Option.some_ne_none _

theorem wellTyped_iff (hroot : IsRecord form SettingGroup.names root) :
    WellTyped form root ↔ ∀ s, given reader root s ≠ none := by
  simp only [given_ne_none_iff hreader hroot]
  constructor
  · exact fun h s => ⟨h.groups s.group, h.values s⟩
  · intro h
    refine ⟨fun g => ?_, fun s => (h s).2⟩
    cases g with
    | unknownTypes => exact (h .topLevel).1
    | limits => exact (h .maxDepth).1
    | framing => exact (h .requirePreamble).1

/-- What is read for an entry is what the document gives to it. -/
theorem given_eq_some_some_iff {x : s.Carrier} :
    given reader root s = some (some x) ↔ InDocument form root s x := by
  constructor
  · intro h
    cases hroot : reader.record? SettingGroup.names root with
    | none =>
        simp only [given, hroot, Option.bind_eq_bind, Option.bind_none, reduceCtorEq] at h
    | some groups =>
        cases hfound : groups s.group.name with
        | none =>
            rw [given_of_no_group hroot hfound] at h
            cases h
        | some group =>
            rw [given_of_group hroot hfound] at h
            obtain ⟨part, hread, hpart⟩ := Option.bind_eq_some_iff.mp h
            have hgroup := (hreader.holds_iff s.group.name_mem_names hroot).mpr hfound
            cases hvalue : part s.name with
            | none =>
                rw [hvalue] at hpart
                cases hpart
            | some value =>
                rw [hvalue] at hpart
                obtain ⟨y, hy, hsame⟩ := Option.map_eq_some_iff.mp hpart
                obtain rfl := Option.some.inj hsame
                exact ⟨value,
                  ⟨group, hgroup, (hreader.holds_iff s.name_mem_fields hread).mpr hvalue⟩,
                  (Setting.ofValue?_eq_some_iff hreader).mp hy⟩
  · rintro ⟨value, hvalue, hx⟩
    rw [given_of_places hreader hvalue, (Setting.ofValue?_eq_some_iff hreader).mpr hx,
      Option.map_some]

/-- What is read from a document is laid over the standard settings. -/
theorem laidOver_given : LaidOver (InDocument form root) standard
    (Setting.all.foldl (put fun s => (given reader root s).join) standard) := by
  refine laidOver_foldl_put (fun s x => ?_) standard
  rw [← given_eq_some_some_iff hreader, Option.join_eq_some_iff]

/-- A document gives settings if it is well typed, and lays them over the standard ones. -/
theorem ofValue?_eq_some_iff (hroot : IsRecord form SettingGroup.names root) :
    ofValue? reader root = some settings ↔
      WellTyped form root ∧ LaidOver (InDocument form root) standard settings := by
  refine (foldlM_given_eq_some_iff Setting.all standard).trans ?_
  rw [wellTyped_iff hreader hroot]
  constructor
  · rintro ⟨hall, rfl⟩
    exact ⟨fun s => hall s s.mem_all, laidOver_given hreader⟩
  · rintro ⟨hall, h⟩
    exact ⟨fun s _ => hall s, (laidOver_given hreader).unique h⟩

end

/-! ## The layer of an environment -/

variable {environment : Environment}

/-- The own variable of an entry spells a value, with white space around it or not. -/
def InEnvironment (environment : Environment) (s : Setting) (x : s.Carrier) : Prop :=
  ∃ text core, environment s.environmentName = some text ∧ Text.Padded text core ∧ s.Spells core x

theorem laidOver_overlay (environment : Environment) (settings : Settings) :
    LaidOver (InEnvironment environment) settings (settings.overlay environment) := by
  refine laidOver_foldl_put (fun s x => ?_) settings
  simp only [InEnvironment, Option.bind_eq_some_iff, Setting.ofText?_trim_eq_some_iff,
    exists_and_left]

/-! ## Bounds -/

/-- The settings are within the bounds. -/
structure InBounds (settings : Settings) : Prop where
  two_le_maxDepth : 2 ≤ settings.limits.maxDepth
  maxDepth_le : settings.limits.maxDepth ≤ 4096
  one_le_maxCollectionLength : 1 ≤ settings.limits.maxCollectionLength

theorem inBounds_iff : settings.InBounds ↔ settings.fault? = none := by
  rw [fault?_eq_none_iff]
  exact ⟨fun ⟨h₁, h₂, h₃⟩ => ⟨h₁, h₂, h₃⟩, fun ⟨h₁, h₂, h₃⟩ => ⟨h₁, h₂, h₃⟩⟩

theorem standard_inBounds : standard.InBounds := ⟨by decide, by decide, by decide⟩

theorem checked_eq_ok_iff {given result : Settings} :
    given.checked = .ok result ↔ given = result ∧ result.InBounds := by
  rw [inBounds_iff, checked]
  cases hfault : given.fault? with
  | none =>
      constructor
      · intro h
        cases h
        exact ⟨rfl, hfault⟩
      · rintro ⟨rfl, -⟩
        rfl
  | some fault =>
      constructor
      · intro h
        cases h
      · rintro ⟨rfl, h⟩
        rw [hfault] at h
        cases h

theorem mapError_eq_ok_iff {α β γ : Type} {f : α → β} {result : Except α γ} {value : γ} :
    result.mapError f = .ok value ↔ result = .ok value := by
  cases result <;> simp [Except.mapError]

/-! ## The layers together -/

section

variable {reader : DocumentReader} {form : reader.Value → Toml.Form reader.Value}
  {root : reader.Value}

/-- The settings that come of a document, an environment and the standard values. -/
structure Layered (form : reader.Value → Toml.Form reader.Value) (source : String)
    (root : reader.Value) (environment : Environment) : Prop where
  /-- A document and an environment each give one result over any base. -/
  document_unique : ∃! file, LaidOver (InDocument form root) standard file
  environment_unique : ∀ base, ∃! settings, LaidOver (InEnvironment environment) base settings
  /-- The document is accepted if it is well typed and what it gives is within the bounds. -/
  document_iff : ∀ {file : Settings}, ofDocument source reader = .ok file ↔
    WellTyped form root ∧ LaidOver (InDocument form root) standard file ∧ file.InBounds
  /-- The environment changes what its variables spell, and nothing else. -/
  overlay : ∀ base, LaidOver (InEnvironment environment) base (base.overlay environment)
  /-- A file is loaded if the settings are within the bounds without the environment and
  with it. -/
  load_iff : ∀ {path : String} {settings : Settings},
    load environment path (.ok source) reader = .ok settings ↔
      WellTyped form root ∧ ∃ file, LaidOver (InDocument form root) standard file ∧
        file.InBounds ∧ LaidOver (InEnvironment environment) file settings ∧ settings.InBounds
  /-- Without a file the environment is laid over the standard settings, or left aside. -/
  ambient_of_inBounds : ∀ {settings : Settings},
    LaidOver (InEnvironment environment) standard settings → settings.InBounds →
      ambient environment = settings
  ambient_of_not_inBounds : ∀ {settings : Settings},
    LaidOver (InEnvironment environment) standard settings → ¬ settings.InBounds →
      ambient environment = standard
  ambient_inBounds : (ambient environment).InBounds

theorem isRecord_of_parse (hreader : reader.KeepsTo form) {source : String}
    (hparse : reader.parse? source = some root) :
    DocumentReader.IsRecord form SettingGroup.names root := by
  obtain ⟨entries, hform⟩ := hreader.parsed hparse
  exact .table hform

theorem ofDocument_eq_ok_iff (hreader : reader.KeepsTo form) {source : String}
    (hparse : reader.parse? source = some root) {file : Settings} :
    ofDocument source reader = .ok file ↔
      WellTyped form root ∧ LaidOver (InDocument form root) standard file ∧ file.InBounds := by
  rw [← and_assoc, ← ofValue?_eq_some_iff hreader (isRecord_of_parse hreader hparse)]
  unfold ofDocument
  rw [hparse, Option.bind_some]
  cases ofValue? reader root with
  | none => simp only [reduceCtorEq, false_and]
  | some settings => rw [mapError_eq_ok_iff, checked_eq_ok_iff, Option.some.injEq]

theorem load_eq_ok_iff {path source : String} :
    load environment path (.ok source) reader = .ok settings ↔
      ∃ file, ofDocument source reader = .ok file ∧ file.overlay environment = settings ∧
        settings.InBounds := by
  unfold load
  cases hread : ofDocument source reader with
  | error fault => simp only [hread, reduceCtorEq, false_and, exists_false]
  | ok file =>
      simp only [hread, mapError_eq_ok_iff, checked_eq_ok_iff, Except.ok.injEq, exists_eq_left']

theorem ambient_of_inBounds (h : (standard.overlay environment).InBounds) :
    ambient environment = standard.overlay environment := by
  have hfault : (ofEnvironment environment).fault? = none := inBounds_iff.mp h
  unfold ambient
  rw [hfault]
  rfl

theorem ambient_of_not_inBounds (h : ¬ (standard.overlay environment).InBounds) :
    ambient environment = standard := by
  unfold ambient
  cases hfault : (ofEnvironment environment).fault? with
  | none => exact absurd (inBounds_iff.mpr hfault) h
  | some fault => rfl

/-- **Configuration layering never escapes the bounds.** -/
theorem layered_within_bounds (hreader : reader.KeepsTo form) {source : String}
    (hparse : reader.parse? source = some root) (environment : Environment) :
    Layered form source root environment where
  document_unique := by
    have hlaid : LaidOver (InDocument form root) standard _ := laidOver_given hreader
    exact ⟨_, hlaid, fun file hfile => hfile.unique hlaid⟩
  environment_unique := fun base =>
    ⟨base.overlay environment, laidOver_overlay environment base,
      fun settings h => h.unique (laidOver_overlay environment base)⟩
  document_iff := ofDocument_eq_ok_iff hreader hparse
  overlay := laidOver_overlay environment
  load_iff := by
    intro path settings
    rw [load_eq_ok_iff]
    constructor
    · rintro ⟨file, hread, rfl, hbounds⟩
      obtain ⟨htyped, hfile, hfileBounds⟩ := (ofDocument_eq_ok_iff hreader hparse).mp hread
      exact ⟨htyped, file, hfile, hfileBounds, laidOver_overlay environment file, hbounds⟩
    · rintro ⟨htyped, file, hfile, hfileBounds, hsettings, hbounds⟩
      exact ⟨file, (ofDocument_eq_ok_iff hreader hparse).mpr ⟨htyped, hfile, hfileBounds⟩,
        (laidOver_overlay environment file).unique hsettings, hbounds⟩
  ambient_of_inBounds := fun h hbounds => by
    obtain rfl := (laidOver_overlay environment standard).unique h
    exact Settings.ambient_of_inBounds hbounds
  ambient_of_not_inBounds := fun h hbounds => by
    obtain rfl := (laidOver_overlay environment standard).unique h
    exact Settings.ambient_of_not_inBounds hbounds
  ambient_inBounds := by
    by_cases h : (standard.overlay environment).InBounds
    · rw [Settings.ambient_of_inBounds h]
      exact h
    · rw [Settings.ambient_of_not_inBounds h]
      exact standard_inBounds

/-- A document that gives an action and a bound. -/
private def shallow : String :=
  "[unknown_types]\ntop_level = \"capture\"\n\n[limits]\nmax_depth = 16\n"

/-- Variables of which one gives the bound another value and one cannot be read. -/
private def deeper : Environment := fun name =>
  if name = "ENVELOPE_MAX_DEPTH" then some " 32 "
  else if name = "ENVELOPE_UNKNOWN_NESTED" then some "maybe"
  else none

/-- The action comes from the document, the bound from the environment, and the rest is as
always. -/
theorem deeper_over_shallow :
    Toml.documents.KeepsTo Toml.Value.form ∧
      ∃ root, Toml.documents.parse? shallow = some root ∧
        Layered Toml.Value.form shallow root deeper ∧
          (load deeper "decoder.toml" (.ok shallow)).toOption =
            some ⟨⟨.capture, .capture⟩, ⟨32, 1048576⟩, ⟨false, true⟩⟩ := by
  obtain ⟨root, hparse⟩ : ∃ root, Toml.documents.parse? shallow = some root :=
    Option.isSome_iff_exists.mp (by decide +kernel)
  exact ⟨Toml.documents_keepsTo, root, hparse,
    layered_within_bounds Toml.documents_keepsTo hparse deeper, by decide +kernel⟩

end

end Settings

end AmqpEnvelope
