/-!
# Decoder settings

What a decoder does with composites that no registered type describes, how deep
and how wide a stream may be, and which framing around the root value is expected.

`Settings.fault?` names the first bound that a configuration violates.  Decoding
itself works under any settings; only loading a configuration checks them.
-/

namespace AmqpEnvelope

/-- What to do with a composite whose descriptor is not registered. -/
inductive UnknownAction where
  /-- Keep the encoded bytes. -/
  | capture
  /-- Fail. -/
  | reject
deriving DecidableEq, Repr

/-- Actions for the root value and for the slots below it. -/
structure UnknownPolicy where
  topLevel : UnknownAction
  nested : UnknownAction
deriving DecidableEq, Repr

namespace UnknownPolicy

/-- Capture everywhere. -/
def captureAll : UnknownPolicy := ⟨.capture, .capture⟩

/-- Reject everywhere. -/
def rejectAll : UnknownPolicy := ⟨.reject, .reject⟩

/-- The action for a slot. -/
def actionFor (policy : UnknownPolicy) (atRoot : Bool) : UnknownAction :=
  if atRoot then policy.topLevel else policy.nested

end UnknownPolicy

/-- Bounds on a walk over a stream. -/
structure Limits where
  /-- Most frames that may be open at once; a composite opens two. -/
  maxDepth : Nat
  /-- Most elements of one list or map. -/
  maxCollectionLength : Nat
deriving DecidableEq, Repr

/-- The bounds used where nothing else is said. -/
def Limits.standard : Limits := ⟨128, Nat.pow 2 20⟩

/-- What is expected around the root value. -/
structure Framing where
  /-- Refuse streams without a preamble. -/
  requirePreamble : Bool
  /-- Decode the object inside an envelope in place of the envelope. -/
  unwrapEnvelope : Bool
deriving DecidableEq, Repr

/-- All settings of a decoder. -/
structure Settings where
  unknownTypes : UnknownPolicy
  limits : Limits
  framing : Framing
deriving DecidableEq, Repr

/-- Unknown roots are rejected and unknown slots captured; a preamble is optional
and an envelope is opened. -/
def Settings.standard : Settings where
  unknownTypes := ⟨.reject, .capture⟩
  limits := Limits.standard
  framing := ⟨false, true⟩

/-! ## Diagnostic listing -/

/-- The action in diagnostic listings. -/
def UnknownAction.debugText : UnknownAction → String
  | .capture => "Capture"
  | .reject => "Reject"

/-- The settings in diagnostic listings. -/
def Settings.debugText (s : Settings) : String :=
  let topLevel := s.unknownTypes.topLevel.debugText
  let nested := s.unknownTypes.nested.debugText
  let policy := s!"UnknownTypePolicy \x7b top_level: {topLevel}, nested: {nested} \x7d"
  let depth := s.limits.maxDepth
  let length := s.limits.maxCollectionLength
  let limits := s!"DecodeLimits \x7b max_depth: {depth}, max_collection_len: {length} \x7d"
  let required := s.framing.requirePreamble
  let unwrap := s.framing.unwrapEnvelope
  let framing := s!"FramingConfig \x7b require_preamble: {required}, unwrap_envelope: {unwrap} \x7d"
  s!"DecoderConfig \x7b unknown_types: {policy}, limits: {limits}, framing: {framing} \x7d"

/-! ## Bounds -/

/-- A bound that settings violate. -/
inductive SettingsFault where
  | depthTooSmall (depth : Nat)
  | depthTooLarge (depth : Nat)
  | noElements
deriving DecidableEq, Repr

/-- The wording of a violated bound. -/
def SettingsFault.message : SettingsFault → String
  | .depthTooSmall depth =>
      s!"limits.max_depth must be at least 2 (one composite), got {depth}"
  | .depthTooLarge depth => s!"limits.max_depth cannot exceed 4096, got {depth}"
  | .noElements => "limits.max_collection_len must be greater than 0"

/-- The first bound that the settings violate. -/
def Settings.fault? (settings : Settings) : Option SettingsFault :=
  let limits := settings.limits
  if limits.maxDepth < 2 then some (.depthTooSmall limits.maxDepth)
  else if 4096 < limits.maxDepth then some (.depthTooLarge limits.maxDepth)
  else if limits.maxCollectionLength = 0 then some .noElements
  else none

/-- Settings are in bounds exactly when one composite fits, the depth is at most
4096, and a list may hold an element. -/
theorem Settings.fault?_eq_none_iff (settings : Settings) :
    settings.fault? = none ↔
      2 ≤ settings.limits.maxDepth ∧ settings.limits.maxDepth ≤ 4096 ∧
        1 ≤ settings.limits.maxCollectionLength := by
  unfold Settings.fault?
  dsimp only
  repeat' split
  all_goals simp only [reduceCtorEq, false_iff, true_iff]; omega

end AmqpEnvelope
