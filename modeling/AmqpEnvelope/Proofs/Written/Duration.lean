import AmqpEnvelope.Proofs.Decode.Field
import AmqpEnvelope.Proofs.Written.Scalar
import AmqpEnvelope.Proofs.Written.Writer

/-!
# Durations

A duration is written as its seconds and its nanoseconds, and both of them may be any number of
their width (`Registry.decodeRoot_duration_iff`).  So the nanoseconds may amount to seconds, four of
them at most.

Carrying these out gives the one time span of the same amount, if there is one
(`Duration.carry?_eq_some_iff`).  There is none for 2⁶⁴ seconds and more, which can be reached from
the last four seconds below, so a duration may be decoded that cannot be converted.
-/

namespace AmqpEnvelope

open Written

/-! ## Time spans -/

/-- The amount of time in nanoseconds. -/
def TimeSpan.totalNanos (span : TimeSpan) : Nat :=
  span.seconds.toNat * 1000000000 + span.nanos.toNat

theorem TimeSpan.totalNanos_lt (span : TimeSpan) : span.totalNanos < 2 ^ 64 * 1000000000 := by
  have hseconds := span.seconds.toNat_lt
  have hnanos := span.nanos_lt
  unfold totalNanos
  omega

/-- There is one time span of an amount. -/
theorem TimeSpan.eq_of_totalNanos_eq {span span' : TimeSpan}
    (h : span.totalNanos = span'.totalNanos) : span = span' := by
  obtain ⟨seconds, nanos, hnanos⟩ := span
  obtain ⟨seconds', nanos', hnanos'⟩ := span'
  simp only [totalNanos] at h
  have hseconds : seconds = seconds' := UInt64.toNat_inj.mp (by omega)
  have hrest : nanos = nanos' := UInt32.toNat_inj.mp (by omega)
  subst hseconds hrest
  rfl

namespace Duration

variable {d : Duration} {span : TimeSpan}

/-- Carrying keeps the amount. -/
theorem totalNanos_of_carry? (h : d.carry? = some span) : span.totalNanos = d.totalNanos := by
  simp only [carry?] at h
  split at h
  next hlt =>
    obtain rfl := Option.some.inj h
    have hlt : d.seconds.toNat + d.nanos.toNat / 1000000000 < 2 ^ 64 := hlt
    simp only [TimeSpan.totalNanos, totalNanos, UInt64.toNat_ofNat', UInt32.toNat_ofNat']
    omega
  next => cases h

theorem carry?_eq_none_iff : d.carry? = none ↔ 2 ^ 64 * 1000000000 ≤ d.totalNanos := by
  have hsize : UInt64.size = 2 ^ 64 := rfl
  have hnanos := d.nanos.toNat_lt
  unfold carry? totalNanos
  dsimp only
  rw [hsize]
  split
  next hlt => exact iff_of_false nofun (by omega)
  next hge => exact iff_of_true rfl (by omega)

/-- **The time span of a duration** is the one of the same amount. -/
theorem carry?_eq_some_iff : d.carry? = some span ↔ span.totalNanos = d.totalNanos := by
  refine ⟨totalNanos_of_carry?, fun h => ?_⟩
  cases hcarry : d.carry? with
  | none =>
      have hge := carry?_eq_none_iff.mp hcarry
      have hlt := span.totalNanos_lt
      omega
  | some found =>
      rw [TimeSpan.eq_of_totalNanos_eq (h.trans (totalNanos_of_carry? hcarry).symm)]

/-- What conversion does: it finds the time span of the same amount, with less than a second in
nanoseconds, and there is none if and only if the seconds no longer fit 64 bits. -/
structure Converts (d : Duration) : Prop where
  span_iff : ∀ span : TimeSpan, d.carry? = some span ↔
    span.seconds.toNat * 1000000000 + span.nanos.toNat =
      d.seconds.toNat * 1000000000 + d.nanos.toNat
  subsecond : ∀ span : TimeSpan, d.carry? = some span → span.nanos.toNat < 1000000000
  none_iff : d.carry? = none ↔ 2 ^ 64 ≤ d.seconds.toNat + d.nanos.toNat / 1000000000

theorem converts (d : Duration) : d.Converts where
  span_iff _ := carry?_eq_some_iff
  subsecond span _ := span.nanos_lt
  none_iff := by
    rw [carry?_eq_none_iff, totalNanos]
    omega

/-- Four seconds below the bound, nothing can go wrong. -/
theorem exists_span_of_lt (h : d.seconds.toNat + 4 < 2 ^ 64) : ∃ span, d.carry? = some span := by
  cases hcarry : d.carry? with
  | some span => exact ⟨span, rfl⟩
  | none =>
      have hge := d.converts.none_iff.mp hcarry
      have hnanos := d.nanos.toNat_lt
      omega

end Duration

/-! ## Written durations -/

/-- A duration: the seconds and the nanoseconds, in any of their forms. -/
def Written.DurationOf (cap : Nat) (d : Duration) (bytes : Bytes) : Prop :=
  ∃ seconds nanos, ScalarOf .ulong d.seconds seconds ∧ ScalarOf .uint d.nanos nanos ∧
    Composite cap (spelt "java.time.Duration") [seconds, nanos] bytes

namespace Grammar

theorem splits_duration : Splits duration fun _ items d =>
    ∃ seconds nanos, items = [seconds, nanos] ∧ ScalarOf .ulong d.seconds seconds ∧
      ScalarOf .uint d.nanos nanos := by
  refine (Splits.cons (Spans.scalar .ulong) fun seconds => Splits.cons (Spans.scalar .uint)
    fun nanos => Splits.pure (Duration.mk seconds nanos)).of_iff fun bounds items d => ⟨?_, ?_⟩
  · rintro ⟨seconds, _, _, rfl, hseconds, nanos, _, _, rfl, hnanos, rfl, rfl⟩
    exact ⟨seconds, nanos, rfl, (scalar_written_iff.mp hseconds).2,
      (scalar_written_iff.mp hnanos).2⟩
  · rintro ⟨seconds, nanos, rfl, hseconds, hnanos⟩
    exact ⟨seconds, _, _, rfl, scalar_written_iff.mpr ⟨rfl, hseconds⟩, nanos, [], _, rfl,
      scalar_written_iff.mpr ⟨rfl, hnanos⟩, rfl, rfl⟩

theorem duration_written_iff {settings : Settings} {bounds : Limits} (hroom : 2 ≤ bounds.maxDepth)
    {bs : Bytes} {d : Duration} :
    typed (.standard settings) .duration duration bounds 1 bs d ↔
      DurationOf bounds.maxCollectionLength d bs := by
  rw [typed_written_iff Named.duration splits_duration]
  constructor
  · rintro ⟨-, -, _, hcomposite, seconds, nanos, rfl, hseconds, hnanos⟩
    exact ⟨seconds, nanos, hseconds, hnanos, hcomposite⟩
  · rintro ⟨seconds, nanos, hseconds, hnanos, hcomposite⟩
    exact ⟨rfl, hroom, _, hcomposite, seconds, nanos, rfl, hseconds, hnanos⟩

end Grammar

namespace Writing

/-- A duration in forms of full width. -/
def duration (d : Duration) : Bytes :=
  composite "java.time.Duration" [fullForm .ulong d.seconds, fullForm .uint d.nanos]

theorem duration_form (d : Duration) {cap : Nat} (hcap : 2 ≤ cap) :
    DurationOf cap d (duration d) := by
  have hseconds : (fullForm .ulong d.seconds).length = 9 :=
    congrArg Nat.succ (BigEndian.length_ofNat 8 _)
  have hnanos : (fullForm .uint d.nanos).length = 5 :=
    congrArg Nat.succ (BigEndian.length_ofNat 4 _)
  have hfits : Fits [fullForm .ulong d.seconds, fullForm .uint d.nanos] := by
    simp only [Fits, List.flatten_cons, List.flatten_nil, List.length_append, hseconds, hnanos]
    decide
  refine ⟨_, _, fullForm_scalar trivial, fullForm_scalar trivial,
    composite_form (by decide) (by decide +kernel) hfits ?_ hcap⟩
  rw [List.forall_mem_cons, List.forall_mem_singleton]
  exact ⟨List.cons_ne_nil _ _, List.cons_ne_nil _ _⟩

end Writing

namespace Registry

/-- **The streams of durations.**  Without a preamble and an envelope, exactly the written forms
are decoded, whatever the two numbers are. -/
theorem decodeRoot_duration_iff {settings : Settings}
    (hrequire : settings.framing.requirePreamble = false)
    (hunwrap : settings.framing.unwrapEnvelope = false) (hdepth : 2 ≤ settings.limits.maxDepth)
    {stream : Bytes} (hmagic : ¬ streamMagic <+: stream) (d : Duration) :
    (standard settings).decodeRoot (.kind .duration) stream = .ok (.duration d) ↔
      DurationOf settings.limits.maxCollectionLength d stream := by
  have hsettings := standard_settings settings
  have hgrammar : Grammar.target (standard settings) (settings.limits.maxDepth + 1) true
      (.kind .duration) = Known.duration <$>
        Grammar.typed (standard settings) .duration Grammar.duration :=
    Grammar.typed_map _ _ _ _
  rw [← hsettings] at hrequire hunwrap
  have hlevels : (standard settings).settings.limits.maxDepth < settings.limits.maxDepth + 1 := by
    rw [hsettings]
    exact Nat.lt_succ_self _
  rw [decodeRoot_iff_of_bare (standard_declared settings) hrequire hunwrap hmagic _ hlevels,
    hsettings, hgrammar, Grammar.map_iff, ← Grammar.duration_written_iff hdepth]
  constructor
  · rintro ⟨found, hfound, hsame⟩
    cases hsame
    exact hfound
  · intro h
    exact ⟨d, h, rfl⟩

/-- Any two numbers are decoded from the stream that is written with them. -/
theorem decodeRoot_writing_duration {settings : Settings}
    (hrequire : settings.framing.requirePreamble = false)
    (hunwrap : settings.framing.unwrapEnvelope = false) (hdepth : 2 ≤ settings.limits.maxDepth)
    (hcap : 2 ≤ settings.limits.maxCollectionLength) (d : Duration) :
    (standard settings).decodeRoot (.kind .duration) (Writing.duration d) = .ok (.duration d) := by
  have hmagic : ¬ streamMagic <+: Writing.duration d := by
    rintro ⟨rest, hrest⟩
    cases (List.cons.inj hrest).1
  exact (decodeRoot_duration_iff hrequire hunwrap hdepth hmagic d).mpr (Writing.duration_form d hcap)

/-- What a stream of a duration holds is a duration. -/
theorem exists_duration_of_decodeRoot {registry : Registry} {bytes : Bytes} {value : Known}
    (h : registry.decodeRoot (.kind .duration) bytes = .ok value) :
    ∃ d, value = .duration d := by
  obtain ⟨root, left, hdecode⟩ := exists_of_decodeRoot h
  have htarget : registry.decodeTarget (.kind .duration) =
      Known.duration <$> Decode.composite registry .duration Decode.durationFields :=
    (Decode.map_composite _ _).symm
  rw [htarget] at hdecode
  obtain ⟨d, -, rfl⟩ := Cursor.map_eq_ok_iff.mp hdecode
  exact ⟨d, rfl⟩

/-- **Decoded durations are converted without loss**, as far as there is a time span of their
amount at all. -/
theorem duration_converts {registry : Registry} {bytes : Bytes} {value : Known}
    (h : registry.decodeRoot (.kind .duration) bytes = .ok value) :
    ∃ d, value = .duration d ∧ d.Converts := by
  obtain ⟨d, rfl⟩ := exists_duration_of_decodeRoot h
  exact ⟨d, rfl, d.converts⟩

/-- Settings without any framing. -/
private def plain : Settings := ⟨.rejectAll, ⟨2, 2⟩, ⟨false, false⟩⟩

/-- Two seconds, and as much again in nanoseconds. -/
private def twiceTwo : Duration := ⟨2, 2000000000⟩

theorem duration_converts_twice_two :
    (standard plain).decodeRoot (.kind .duration) (Writing.duration twiceTwo) =
        .ok (.duration twiceTwo) ∧
      twiceTwo.carry? = some ⟨4, 0, by decide⟩ ∧
        ∃ d, Known.duration twiceTwo = .duration d ∧ d.Converts := by
  have hdecoded : (standard plain).decodeRoot (.kind .duration) (Writing.duration twiceTwo) =
      .ok (.duration twiceTwo) :=
    decodeRoot_writing_duration rfl rfl (by decide) (by decide) twiceTwo
  exact ⟨hdecoded, by decide, duration_converts hdecoded⟩

/-- The last second that 64 bits can hold, and one more in nanoseconds. -/
private def pastLast : Duration := ⟨18446744073709551615, 1000000000⟩

/-- A stream is decoded to a duration that cannot be converted. -/
theorem decoded_without_span :
    (standard plain).decodeRoot (.kind .duration) (Writing.duration pastLast) =
        .ok (.duration pastLast) ∧
      ¬ ∃ span, pastLast.carry? = some span := by
  refine ⟨decodeRoot_writing_duration rfl rfl (by decide) (by decide) pastLast, ?_⟩
  rintro ⟨span, hspan⟩
  have hnone : pastLast.carry? = none := by decide
  rw [hnone] at hspan
  cases hspan

end Registry

end AmqpEnvelope
