import AmqpEnvelope.Settings.Basic
import AmqpEnvelope.Settings.Document
import AmqpEnvelope.Text.Blank

/-!
# The entries of the settings

The settings are six entries in three groups.  An entry has a name in documents, a variable
that overrides it, a type, and a place in the settings.  What a variable says is read here; what
a document says is left to the reader of documents.
-/

namespace AmqpEnvelope

/-- The name of an action. -/
def UnknownAction.word : UnknownAction → String
  | .capture => "capture"
  | .reject => "reject"

/-- The names of the actions. -/
def UnknownAction.words : List String := [UnknownAction.capture.word, UnknownAction.reject.word]

/-- The action of a name, which has to be spelled exactly. -/
def UnknownAction.ofWord? (word : String) : Option UnknownAction :=
  [UnknownAction.capture, .reject].find? fun action => action.word = word

/-- A text that names no action, as it was understood. -/
structure ActionFault where
  understood : String
deriving DecidableEq, Repr

/-- The wording of the fault. -/
def ActionFault.message (fault : ActionFault) : String :=
  s!"expected 'capture' or 'reject', got '{fault.understood}'"

/-- An action as people write it: white space around it and the case of its letters do not
count. -/
def UnknownAction.parse (text : String) : Except ActionFault UnknownAction :=
  let understood := Text.asciiLower (Text.trim text)
  match UnknownAction.ofWord? understood with
  | some action => .ok action
  | none => .error ⟨understood⟩

/-- The groups of entries, in the order in which a document lists them. -/
inductive SettingGroup where
  | unknownTypes | limits | framing
deriving DecidableEq, Repr

namespace SettingGroup

/-- The name of the group in documents. -/
def name : SettingGroup → String
  | unknownTypes => "unknown_types"
  | limits => "limits"
  | framing => "framing"

/-- The names of the groups, in their order. -/
def names : List String := [unknownTypes.name, limits.name, framing.name]

end SettingGroup

/-- One entry of the settings, in the order in which overrides are looked up. -/
inductive Setting where
  | maxDepth | maxCollectionLength
  | topLevel | nested
  | requirePreamble | unwrapEnvelope
deriving DecidableEq, Repr

namespace Setting

/-- Every entry. -/
def all : List Setting :=
  [maxDepth, maxCollectionLength, topLevel, nested, requirePreamble, unwrapEnvelope]

/-- The type of the entry. -/
@[reducible] def Carrier : Setting → Type
  | maxDepth => Nat
  | maxCollectionLength => Nat
  | topLevel => UnknownAction
  | nested => UnknownAction
  | requirePreamble => Bool
  | unwrapEnvelope => Bool

/-- The value of the entry in settings. -/
def get : (s : Setting) → Settings → s.Carrier
  | maxDepth, settings => settings.limits.maxDepth
  | maxCollectionLength, settings => settings.limits.maxCollectionLength
  | topLevel, settings => settings.unknownTypes.topLevel
  | nested, settings => settings.unknownTypes.nested
  | requirePreamble, settings => settings.framing.requirePreamble
  | unwrapEnvelope, settings => settings.framing.unwrapEnvelope

/-- Replace the value of the entry. -/
def set : (s : Setting) → s.Carrier → Settings → Settings
  | maxDepth, value, settings => { settings with limits.maxDepth := value }
  | maxCollectionLength, value, settings => { settings with limits.maxCollectionLength := value }
  | topLevel, value, settings => { settings with unknownTypes.topLevel := value }
  | nested, value, settings => { settings with unknownTypes.nested := value }
  | requirePreamble, value, settings => { settings with framing.requirePreamble := value }
  | unwrapEnvelope, value, settings => { settings with framing.unwrapEnvelope := value }

/-- The group of the entry. -/
def group : Setting → SettingGroup
  | maxDepth => .limits
  | maxCollectionLength => .limits
  | topLevel => .unknownTypes
  | nested => .unknownTypes
  | requirePreamble => .framing
  | unwrapEnvelope => .framing

/-- The name of the entry in its group. -/
def name : Setting → String
  | maxDepth => "max_depth"
  | maxCollectionLength => "max_collection_len"
  | topLevel => "top_level"
  | nested => "nested"
  | requirePreamble => "require_preamble"
  | unwrapEnvelope => "unwrap_envelope"

/-- The environment variable that overrides the entry. -/
def environmentName : Setting → String
  | maxDepth => "ENVELOPE_MAX_DEPTH"
  | maxCollectionLength => "ENVELOPE_MAX_COLLECTION_LEN"
  | topLevel => "ENVELOPE_UNKNOWN_TOP_LEVEL"
  | nested => "ENVELOPE_UNKNOWN_NESTED"
  | requirePreamble => "ENVELOPE_REQUIRE_PREAMBLE"
  | unwrapEnvelope => "ENVELOPE_UNWRAP_ENVELOPE"

end Setting

/-- The names of the entries of a group, in their order. -/
def SettingGroup.fields : SettingGroup → List String
  | unknownTypes => [Setting.topLevel.name, Setting.nested.name]
  | limits => [Setting.maxDepth.name, Setting.maxCollectionLength.name]
  | framing => [Setting.requirePreamble.name, Setting.unwrapEnvelope.name]

namespace Setting

/-! ## Variables -/

/-- A count of up to 64 bits: decimal digits, perhaps behind a plus. -/
def countOfText? (text : String) : Option Nat :=
  let digits := match text.toList with
    | '+' :: rest => rest
    | cs => cs
  if digits.isEmpty || !digits.all Char.isDigit then none
  else
    let count := digits.foldl (fun value c => value * 10 + (c.toNat - '0'.toNat)) 0
    if count < UInt64.size then some count else none

/-- A switch. -/
def flagOfText? (text : String) : Option Bool :=
  if text = "true" then some true
  else if text = "false" then some false
  else none

/-- The value that a text gives to the entry. -/
def ofText? : (s : Setting) → String → Option s.Carrier
  | maxDepth, text => countOfText? text
  | maxCollectionLength, text => countOfText? text
  | topLevel, text => (UnknownAction.parse text).toOption
  | nested, text => (UnknownAction.parse text).toOption
  | requirePreamble, text => flagOfText? text
  | unwrapEnvelope, text => flagOfText? text

/-! ## Documents -/

/-- The value that a document gives to the entry. -/
def ofValue? (reader : DocumentReader) : (s : Setting) → reader.Value → Option s.Carrier
  | maxDepth, value => reader.count? value
  | maxCollectionLength, value => reader.count? value
  | topLevel, value => (reader.word? UnknownAction.words value).bind UnknownAction.ofWord?
  | nested, value => (reader.word? UnknownAction.words value).bind UnknownAction.ofWord?
  | requirePreamble, value => reader.flag? value
  | unwrapEnvelope, value => reader.flag? value

end Setting

end AmqpEnvelope
