import AmqpEnvelope.Decode.Deferred
import AmqpEnvelope.Proofs.Registry.Declared

/-!
# Pools of deferred streams

Deferred streams are kept in a pool, by themselves or as the bodies of signed transactions.  They
are asked for their values under registries that may differ each time, inspected, compared, copied
and given up, in any order (`Pool.Request`).  A stream is decoded until that succeeds once, and
never again (`Pool.materializes_once`).

What carries this is that a stream depends on nothing but the registries under which it was asked
itself: they leave it as `Deferred.after` says (`Pool.stream_run`).  So the other streams of the
pool, among them its copies, do not matter, and neither does anything else that is done.
-/

namespace AmqpEnvelope

/-! ## Registries asked one after the other -/

/-- What deferred streams are read as. -/
structure Interpretation where
  Carrier : Type
  reader : Registry → Decoding Carrier

namespace Interpretation

/-- As a value of a described type, or as what a slot may hold. -/
def target (t : Target) : Interpretation := ⟨t.Carrier, fun registry => registry.decodeTarget t⟩

/-- As the transaction that was signed. -/
def transaction : Interpretation := ⟨WireTransaction, Decode.wireTransaction⟩

/-- What a registry by itself makes of a complete stream. -/
def outcome (w : Interpretation) (registry : Registry) (bytes : Bytes) :
    Except DecodeError w.Carrier :=
  match registry.readStream (w.reader registry) bytes with
  | .ok value _ => .ok value
  | .error e _ => .error e

/-- None of the registries can make anything of the stream. -/
def Fails (w : Interpretation) (bytes : Bytes) (registries : List Registry) : Prop :=
  ∀ registry ∈ registries, ∃ e, w.outcome registry bytes = .error e

theorem outcome_target (t : Target) (registry : Registry) (bytes : Bytes) :
    (target t).outcome registry bytes = registry.decodeRoot t bytes := by
  unfold outcome Registry.decodeRoot target
  cases registry.readStream (registry.decodeTarget t) bytes <;> rfl

end Interpretation

namespace Deferred

variable {w : Interpretation} {stream : Deferred w.Carrier} {registry : Registry}
  {registries : List Registry} {value : w.Carrier} {e : DecodeError}

/-- The stream after it was asked for its value under some registries, in turn. -/
def after (w : Interpretation) (stream : Deferred w.Carrier) (registries : List Registry) :
    Deferred w.Carrier :=
  registries.foldl (fun stream registry => (stream.materialize w.reader registry).stream) stream

theorem materialize_bytes :
    (stream.materialize w.reader registry).stream.bytes = stream.bytes := by
  unfold materialize
  repeat' split
  all_goals rfl

theorem materialize_of_cached (h : stream.cached = some value) :
    stream.materialize w.reader registry = ⟨stream, .ok value, []⟩ := by
  rw [materialize, h]

/-- As long as there is no value, the registry decides. -/
theorem materialize_result (h : stream.cached = none) :
    (stream.materialize w.reader registry).result = w.outcome registry stream.bytes := by
  rw [materialize, h, Interpretation.outcome]
  dsimp only
  split
  next hread => rw [hread]
  next hread => rw [hread]

theorem materialize_of_error (h : stream.cached = none)
    (hfails : w.outcome registry stream.bytes = .error e) :
    (stream.materialize w.reader registry).stream = stream := by
  rw [Interpretation.outcome] at hfails
  rw [materialize, h]
  cases hread : registry.readStream (w.reader registry) stream.bytes with
  | ok value c =>
      rw [hread] at hfails
      cases hfails
  | error e' c => rfl

theorem materialize_of_ok (h : stream.cached = none)
    (hsucceeds : w.outcome registry stream.bytes = .ok value) :
    (stream.materialize w.reader registry).stream.cached = some value := by
  rw [Interpretation.outcome] at hsucceeds
  rw [materialize, h]
  cases hread : registry.readStream (w.reader registry) stream.bytes with
  | ok found c =>
      rw [hread] at hsucceeds
      exact congrArg some (Except.ok.inj hsucceeds)
  | error e c =>
      rw [hread] at hsucceeds
      cases hsucceeds

theorem after_append (stream : Deferred w.Carrier) (earlier later : List Registry) :
    stream.after w (earlier ++ later) = (stream.after w earlier).after w later :=
  List.foldl_append

theorem after_bytes : (stream.after w registries).bytes = stream.bytes := by
  induction registries generalizing stream with
  | nil => rfl
  | cons registry rest ih =>
      rw [after, List.foldl_cons, ← after, ih, materialize_bytes]

/-- A value that is present stays. -/
theorem after_of_cached (h : stream.cached = some value) : stream.after w registries = stream := by
  induction registries with
  | nil => rfl
  | cons registry rest ih => rw [after, List.foldl_cons, materialize_of_cached h, ← after, ih]

/-- Failures leave no trace. -/
theorem after_of_fails (h : stream.cached = none) (hfails : w.Fails stream.bytes registries) :
    stream.after w registries = stream := by
  induction registries with
  | nil => rfl
  | cons registry rest ih =>
      obtain ⟨e, herror⟩ := hfails registry List.mem_cons_self
      rw [after, List.foldl_cons, materialize_of_error h herror, ← after]
      exact ih fun registry hrest => hfails registry (List.mem_cons_of_mem _ hrest)

/-- After failures the first success is what stays. -/
theorem after_cached_of_ok {earlier later : List Registry} (h : stream.cached = none)
    (hfails : w.Fails stream.bytes earlier) (hsucceeds : w.outcome registry stream.bytes = .ok value) :
    (stream.after w (earlier ++ registry :: later)).cached = some value := by
  have hfirst := materialize_of_ok h hsucceeds
  rw [after_append, after_of_fails h hfails, after, List.foldl_cons, ← after,
    after_of_cached hfirst, hfirst]

end Deferred

/-! ## Pools -/

/-- Where a deferred stream is kept. -/
inductive Place : Interpretation → Type 1
  /-- By itself. -/
  | alone {w : Interpretation} (stream : Deferred w.Carrier) : Place w
  /-- As the body of a signed transaction. -/
  | signed (whole : SignedTransaction) : Place .transaction

namespace Place

variable {w : Interpretation}

def stream : Place w → Deferred w.Carrier
  | alone stream => stream
  | signed whole => whole.body

/-- Put another stream in its place. -/
def put : Place w → Deferred w.Carrier → Place w
  | alone _, stream => alone stream
  | signed whole, stream => signed { whole with body := stream }

/-- Ask for the value of the stream. -/
def materialize (registry : Registry) : Place w → Materialization w.Carrier
  | alone stream => stream.materialize w.reader registry
  | signed whole => whole.wireTransaction registry

@[simp] theorem stream_put (place : Place w) (stream : Deferred w.Carrier) :
    (place.put stream).stream = stream := by
  cases place <;> rfl

theorem materialize_eq (place : Place w) (registry : Registry) :
    place.materialize registry = place.stream.materialize w.reader registry := by
  cases place <;> rfl

end Place

/-- Deferred streams by number.  What is given up leaves its number unused. -/
abbrev Pool (w : Interpretation) := List (Option (Place w))

namespace Pool

variable {w : Interpretation}

/-- What is asked of a pool. -/
inductive Request (w : Interpretation) : Type 1
  /-- Keep one more. -/
  | hold (place : Place w)
  | materialize (i : Nat) (registry : Registry)
  | get (i : Nat)
  | isMaterialized (i : Nat)
  | bytes (i : Nat)
  | same (i j : Nat)
  /-- Keep a copy, within a copy of the signed transaction if it is in one. -/
  | clone (i : Nat)
  /-- Keep a copy of the stream alone. -/
  | body (i : Nat)
  /-- Give the stream up for its value. -/
  | intoInner (i : Nat)

/-- What a pool answers. -/
inductive Answer (w : Interpretation)
  | absent
  | number (i : Nat)
  /-- The value or the error, with the types whose fields were read for it. -/
  | result (result : Except DecodeError w.Carrier) (entered : List String)
  | value (value : Option w.Carrier)
  | flag (flag : Bool)
  | bytes (bytes : Bytes)

def place (pool : Pool w) (i : Nat) : Option (Place w) := pool[i]?.join

def stream (pool : Pool w) (i : Nat) : Option (Deferred w.Carrier) := (pool.place i).map Place.stream

/-- Answer about a stream, if it is there. -/
def about (pool : Pool w) (i : Nat) (answer : Deferred w.Carrier → Answer w) : Answer w :=
  match pool.stream i with
  | some stream => answer stream
  | none => .absent

/-- Keep one more, if it is there. -/
def keep (pool : Pool w) : Option (Place w) → Answer w × Pool w
  | some place => (.number pool.length, pool ++ [some place])
  | none => (.absent, pool)

/-- Do what is asked. -/
def step (pool : Pool w) : Request w → Answer w × Pool w
  | .hold place => pool.keep (some place)
  | .materialize i registry =>
      match pool.place i with
      | some place =>
          let asked := place.materialize registry
          (.result asked.result asked.entered, pool.set i (some (place.put asked.stream)))
      | none => (.absent, pool)
  | .get i => (pool.about i fun stream => .value stream.cached, pool)
  | .isMaterialized i => (pool.about i fun stream => .flag stream.isMaterialized, pool)
  | .bytes i => (pool.about i fun stream => .bytes stream.bytes, pool)
  | .same i j =>
      (pool.about i fun first => pool.about j fun second => .flag (first.same second), pool)
  | .clone i => pool.keep (pool.place i)
  | .body i => pool.keep ((pool.stream i).map Place.alone)
  | .intoInner i => (pool.about i fun stream => .value stream.cached, pool.set i none)

/-- The pool after some requests. -/
def run (pool : Pool w) (requests : List (Request w)) : Pool w :=
  requests.foldl (fun pool request => (pool.step request).2) pool

/-- The registry under which a request asks for the value of the stream. -/
def Request.registry? (i : Nat) : Request w → Option Registry
  | .materialize j registry => if j = i then some registry else none
  | _ => none

/-- The registries under which the stream is asked for its value. -/
def asked (i : Nat) (requests : List (Request w)) : List Registry :=
  requests.filterMap (Request.registry? i)

variable {pool : Pool w} {i : Nat} {requests : List (Request w)} {stream : Deferred w.Carrier}

theorem place_append {place : Place w} (h : pool.place i = some place) (more : Pool w) :
    Pool.place (pool ++ more) i = some place := by
  rw [Pool.place, Option.join_eq_some_iff] at h ⊢
  rw [List.getElem?_append_left (List.getElem?_eq_some_iff.mp h).1, h]

theorem place_append_singleton (pool : Pool w) (place : Place w) :
    Pool.place (pool ++ [some place]) pool.length = some place := by
  rw [Pool.place, List.getElem?_concat_length, Option.join_some]

theorem place_set_self {place : Place w} (h : pool.place i = some place) (put : Option (Place w)) :
    Pool.place (pool.set i put) i = put := by
  rw [Pool.place, Option.join_eq_some_iff] at h
  rw [Pool.place, List.getElem?_set_self (List.getElem?_eq_some_iff.mp h).1, Option.join_some]

theorem place_set_of_ne {j : Nat} (hne : j ≠ i) (put : Option (Place w)) :
    Pool.place (pool.set j put) i = pool.place i := by
  rw [Pool.place, List.getElem?_set_ne hne, Pool.place]

theorem stream_eq_some_iff :
    pool.stream i = some stream ↔ ∃ place, pool.place i = some place ∧ place.stream = stream :=
  Option.map_eq_some_iff

/-- A further stream leaves those that are kept. -/
theorem stream_keep (h : pool.stream i = some stream) (more : Option (Place w)) :
    Pool.stream (pool.keep more).2 i = some stream := by
  obtain ⟨place, hplace, hstream⟩ := stream_eq_some_iff.mp h
  cases more with
  | none => exact h
  | some further => exact stream_eq_some_iff.mpr ⟨place, place_append hplace _, hstream⟩

/-- **One step.**  A stream changes when it is asked for its value itself, and not otherwise. -/
theorem stream_step {request : Request w} (h : pool.stream i = some stream)
    (hkept : request ≠ .intoInner i) :
    Pool.stream (pool.step request).2 i =
      some (stream.after w (request.registry? i).toList) := by
  cases request with
  -- What is added stands behind the others, at a number of its own.
  | hold place => exact stream_keep h _
  | clone j => exact stream_keep h _
  | body j => exact stream_keep h _
  | get j | isMaterialized j | bytes j | same j k => exact h
  | intoInner j =>
      have hne : j ≠ i := fun hji => hkept (hji ▸ rfl)
      exact (congrArg (Option.map Place.stream) (place_set_of_ne hne none)).trans h
  | materialize j registry =>
      rw [step, Request.registry?]
      by_cases hji : j = i
      · subst hji
        obtain ⟨place, hplace, rfl⟩ := stream_eq_some_iff.mp h
        rw [if_pos rfl, hplace]
        refine stream_eq_some_iff.mpr ⟨_, place_set_self hplace _, ?_⟩
        rw [Place.stream_put, Place.materialize_eq]
        rfl
      · rw [if_neg hji]
        cases hj : pool.place j with
        | none => exact h
        | some place => exact (congrArg (Option.map Place.stream) (place_set_of_ne hji _)).trans h

/-- **A whole run.**  A stream depends on the registries under which it was asked itself. -/
theorem stream_run (h : pool.stream i = some stream) (hkept : .intoInner i ∉ requests) :
    (pool.run requests).stream i = some (stream.after w (asked i requests)) := by
  -- The stream is general, since the first request may leave it with a value.
  induction requests generalizing pool stream with
  | nil => exact h
  | cons request rest ih =>
      rw [List.mem_cons, not_or] at hkept
      have hrest := ih (stream_step h (Ne.symm hkept.1)) hkept.2
      rw [run, List.foldl_cons, ← run, hrest, ← Deferred.after_append]
      cases hregistry : request.registry? i <;> simp [asked, hregistry]

theorem run_append (pool : Pool w) (earlier later : List (Request w)) :
    pool.run (earlier ++ later) = (pool.run earlier).run later :=
  List.foldl_append

theorem asked_append (i : Nat) (earlier later : List (Request w)) :
    asked i (earlier ++ later) = asked i earlier ++ asked i later :=
  List.filterMap_append

theorem asked_cons_materialize (i : Nat) (registry : Registry) (requests : List (Request w)) :
    asked i (.materialize i registry :: requests) = registry :: asked i requests :=
  List.filterMap_cons_some (if_pos rfl)

/-! ## Answers -/

/-- The value is there, and whoever asks for it gets it without any decoding. -/
structure Has (pool : Pool w) (i : Nat) (value : w.Carrier) : Prop where
  get : (pool.step (.get i)).1 = .value (some value)
  isMaterialized : (pool.step (.isMaterialized i)).1 = .flag true
  intoInner : (pool.step (.intoInner i)).1 = .value (some value)
  materialize : ∀ registry, (pool.step (.materialize i registry)).1 = .result (.ok value) []

/-- There is no value, and whoever asks for it gets what the registry by itself makes of the
bytes. -/
structure Lacks (pool : Pool w) (i : Nat) (bytes : Bytes) : Prop where
  get : (pool.step (.get i)).1 = .value none
  isMaterialized : (pool.step (.isMaterialized i)).1 = .flag false
  intoInner : (pool.step (.intoInner i)).1 = .value none
  materialize : ∀ registry, ∃ entered,
    (pool.step (.materialize i registry)).1 = .result (w.outcome registry bytes) entered

theorem about_eq (h : pool.stream i = some stream) (answer : Deferred w.Carrier → Answer w) :
    pool.about i answer = answer stream := by
  rw [about, h]

theorem step_materialize (h : pool.stream i = some stream) (registry : Registry) :
    (pool.step (.materialize i registry)).1 =
      .result (stream.materialize w.reader registry).result
        (stream.materialize w.reader registry).entered := by
  obtain ⟨place, hplace, rfl⟩ := stream_eq_some_iff.mp h
  rw [step, hplace, ← Place.materialize_eq]

theorem has_of_cached {value : w.Carrier} (h : pool.stream i = some stream)
    (hcached : stream.cached = some value) : pool.Has i value where
  get := by rw [step, about_eq h, hcached]
  isMaterialized := by rw [step, about_eq h, Deferred.isMaterialized, hcached, Option.isSome_some]
  intoInner := by rw [step, about_eq h, hcached]
  materialize registry := by rw [step_materialize h, Deferred.materialize_of_cached hcached]

theorem lacks_of_not_cached (h : pool.stream i = some stream) (hcached : stream.cached = none) :
    pool.Lacks i stream.bytes where
  get := by rw [step, about_eq h, hcached]
  isMaterialized := by rw [step, about_eq h, Deferred.isMaterialized, hcached, Option.isSome_none]
  intoInner := by rw [step, about_eq h, hcached]
  materialize registry := ⟨_, by rw [step_materialize h, Deferred.materialize_result hcached]⟩

/-- A copy is kept behind all the others. -/
theorem stream_copy {copy : Request w} (h : pool.stream i = some stream)
    (hcopy : copy = .clone i ∨ copy = .body i) : (pool.step copy).1 = .number pool.length ∧
      Pool.stream (pool.step copy).2 pool.length = some stream := by
  obtain ⟨place, hplace, hstream⟩ := stream_eq_some_iff.mp h
  rcases hcopy with rfl | rfl
  · rw [step, hplace]
    exact ⟨rfl, stream_eq_some_iff.mpr ⟨place, place_append_singleton pool place, hstream⟩⟩
  · rw [step, h]
    exact ⟨rfl, stream_eq_some_iff.mpr ⟨_, place_append_singleton pool _, rfl⟩⟩

theorem lt_length (h : pool.stream i = some stream) : i < pool.length := by
  obtain ⟨place, hplace, -⟩ := stream_eq_some_iff.mp h
  rw [Pool.place, Option.join_eq_some_iff] at hplace
  exact (List.getElem?_eq_some_iff.mp hplace).1

/-! ## At most one success -/

/-- What becomes of a stream until it is given up, whatever else is done. -/
structure MaterializesOnce (pool : Pool w) (i : Nat) (stream : Deferred w.Carrier) : Prop where
  bytes_kept : ∀ earlier, .intoInner i ∉ earlier →
    ((pool.run earlier).step (.bytes i)).1 = .bytes stream.bytes
  /-- As long as no registry that was asked succeeds, each of them is asked. -/
  lacks_until_success : stream.cached = none → ∀ earlier, .intoInner i ∉ earlier →
    w.Fails stream.bytes (asked i earlier) → (pool.run earlier).Lacks i stream.bytes
  /-- From the first success on it is what every request is answered with. -/
  has_from_success : stream.cached = none → ∀ earlier registry value later,
    .intoInner i ∉ earlier → .intoInner i ∉ later → w.Fails stream.bytes (asked i earlier) →
      w.outcome registry stream.bytes = .ok value →
        (pool.run (earlier ++ .materialize i registry :: later)).Has i value
  /-- So is a value that was there from the start. -/
  has_from_start : ∀ value, stream.cached = some value → ∀ earlier, .intoInner i ∉ earlier →
    (pool.run earlier).Has i value
  /-- A copy is what the original is at that moment, and from then on each of the two is left as
  it is by everything but what it is asked itself. -/
  forks : ∀ earlier copy, .intoInner i ∉ earlier → copy = .clone i ∨ copy = .body i →
    ∃ now k, (pool.run earlier).stream i = some now ∧ k ≠ i ∧
      ((pool.run earlier).step copy).1 = .number k ∧
        ∀ j, j = i ∨ j = k → ∀ later, .intoInner j ∉ later →
          (pool.run (earlier ++ copy :: later)).stream j = some (now.after w (asked j later))
  /-- Two streams are the same if they have the same bytes, with values or without. -/
  same_by_bytes : ∀ earlier j other, .intoInner i ∉ earlier →
    (pool.run earlier).stream j = some other →
      ((pool.run earlier).step (.same i j)).1 = .flag (decide (stream.bytes = other.bytes))

/-- **A stream is decoded with success at most once**, whatever is done with it and with the other
streams of the pool. -/
theorem materializes_once (h : pool.stream i = some stream) :
    pool.MaterializesOnce i stream := by
  have hrun : ∀ {earlier}, .intoInner i ∉ earlier →
      (pool.run earlier).stream i = some (stream.after w (asked i earlier)) := stream_run h
  constructor
  case bytes_kept =>
    intro earlier hkept
    rw [step, about_eq (hrun hkept), Deferred.after_bytes]
  case lacks_until_success =>
    intro hcached earlier hkept hfails
    have hsame := hrun hkept
    rw [Deferred.after_of_fails hcached hfails] at hsame
    exact lacks_of_not_cached hsame hcached
  case has_from_success =>
    intro hcached earlier registry value later hearlier hlater hfails hsucceeds
    -- The registries of the whole run are failures, the success, and whatever came later.
    have hkept : .intoInner i ∉ earlier ++ .materialize i registry :: later := by
      rw [List.mem_append, List.mem_cons]
      rintro (hmem | hmem | hmem)
      · exact hearlier hmem
      · cases hmem
      · exact hlater hmem
    have hstream := hrun hkept
    rw [asked_append, asked_cons_materialize] at hstream
    exact has_of_cached hstream (Deferred.after_cached_of_ok hcached hfails hsucceeds)
  case has_from_start =>
    intro value hcached earlier hkept
    have hsame := hrun hkept
    rw [Deferred.after_of_cached hcached] at hsame
    exact has_of_cached hsame hcached
  case forks =>
    intro earlier copy hkept hcopy
    have hnow := hrun hkept
    obtain ⟨hanswer, hcopied⟩ := stream_copy hnow hcopy
    have horiginal : Pool.stream ((pool.run earlier).step copy).2 i = _ :=
      stream_step hnow (by rcases hcopy with rfl | rfl <;> nofun)
    -- Copying asks for no value, so the original stays what it was.
    have hregistry : copy.registry? i = none := by rcases hcopy with rfl | rfl <;> rfl
    rw [hregistry] at horiginal
    refine ⟨_, _, hnow, Nat.ne_of_gt (lt_length hnow), hanswer, fun j hj later hlater => ?_⟩
    rw [run_append, run, List.foldl_cons, ← run]
    rcases hj with rfl | rfl
    · exact stream_run horiginal hlater
    · exact stream_run hcopied hlater
  case same_by_bytes =>
    intro earlier j other hkept hother
    rw [step, about_eq (hrun hkept), about_eq hother, Deferred.same, Deferred.after_bytes,
      Bool.beq_eq_decide_eq]

section

private def lonely : Pool (.target (.kind .duration)) :=
  [some (.alone (.ofBytes Registry.nineSeconds))]

/-- One registry does not know the number, the next one does.  After that neither the first one
nor what is asked of the copy makes a difference. -/
theorem nine_seconds_materialized_once : lonely.stream 0 = some (.ofBytes Registry.nineSeconds) ∧
    Pool.Lacks (lonely.run [.materialize 0 (.empty Settings.standard)]) 0 Registry.nineSeconds ∧
      Pool.Has (lonely.run [.materialize 0 (.empty Settings.standard),
        .materialize 0 Registry.numberedDurations, .clone 0, .intoInner 1]) 0
        (.duration ⟨9, 0⟩) := by
  have hstream : lonely.stream 0 = some (.ofBytes Registry.nineSeconds) := rfl
  have hfails : Interpretation.Fails (.target (.kind .duration)) Registry.nineSeconds
      [.empty Settings.standard] := by
    refine List.forall_mem_singleton.mpr
      ⟨.unexpectedDescriptor Kind.duration.descriptorText (Descriptor.code 7).text 0, ?_⟩
    rw [Interpretation.outcome_target]
    rfl
  have hsucceeds : Interpretation.outcome (.target (.kind .duration)) Registry.numberedDurations
      Registry.nineSeconds = .ok (.duration ⟨9, 0⟩) := by
    rw [Interpretation.outcome_target]
    rfl
  have honce := materializes_once hstream
  exact ⟨hstream, honce.lacks_until_success rfl [_] (by simp) hfails,
    honce.has_from_success rfl [_] _ _ [_, _] (by simp) (by simp) hfails hsucceeds⟩

end

end Pool

end AmqpEnvelope
