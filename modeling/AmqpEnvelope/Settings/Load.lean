import AmqpEnvelope.Settings.Entry
import AmqpEnvelope.Toml.Record

/-!
# Loading settings

Settings are layered: the standard values, over them a document, over that the environment.
The bounds are checked after the document has been read and once more after the environment
has been applied.  A variable that cannot be read is ignored.

* `Settings.ofDocument` reads a document, in TOML unless another reader is given.
* `Settings.overlay` applies the environment.
* `Settings.load` does both, `Settings.ofEnvironment` and `Settings.ambient` do without a
  document.
-/

namespace AmqpEnvelope

/-! ## Documents -/

namespace Settings

/-- Why a text gives no settings. -/
inductive DocumentFault where
  /-- The text is no document, or a value in it has the wrong form. -/
  | unreadable
  /-- A bound is violated. -/
  | outOfBounds (fault : SettingsFault)
deriving DecidableEq, Repr

/-- The wording of the fault. -/
def DocumentFault.message : DocumentFault → String
  | .unreadable => "Failed to parse decoder configuration"
  | .outOfBounds fault => fault.message

/-- The value that a document gives to an entry, if any; a failure if the value or the group
around it has the wrong form. -/
def given (reader : DocumentReader) (document : reader.Value) (s : Setting) :
    Option (Option s.Carrier) := do
  match (← reader.record? SettingGroup.names document) s.group.name with
  | none => return none
  | some group =>
      match (← reader.record? s.group.fields group) s.name with
      | none => return none
      | some value => return some (← s.ofValue? reader value)

/-- The settings that a document gives.  Entries that it leaves out have their standard
values, and what it says beyond the entries is ignored. -/
def ofValue? (reader : DocumentReader) (document : reader.Value) : Option Settings :=
  Setting.all.foldlM
    (fun settings s => do
      match ← given reader document s with
      | some value => return s.set value settings
      | none => return settings)
    Settings.standard

/-- The settings, if they are within the bounds. -/
def checked (settings : Settings) : Except SettingsFault Settings :=
  match settings.fault? with
  | some fault => .error fault
  | none => .ok settings

/-- The settings that the text of a document gives. -/
def ofDocument (source : String) (reader : DocumentReader := Toml.documents) :
    Except DocumentFault Settings :=
  match (reader.parse? source).bind (ofValue? reader) with
  | none => .error .unreadable
  | some settings => settings.checked.mapError .outOfBounds

/-! ## Environment -/

/-- The values of environment variables. -/
abbrev Environment := String → Option String

/-- Apply one override. -/
def override (environment : Environment) (settings : Settings) (s : Setting) : Settings :=
  match (environment s.environmentName).bind fun text => s.ofText? (Text.trim text) with
  | some value => s.set value settings
  | none => settings

/-- Apply all overrides. -/
def overlay (environment : Environment) (settings : Settings) : Settings :=
  Setting.all.foldl (override environment) settings

/-- The standard settings under the environment, in bounds or not. -/
def ofEnvironment (environment : Environment) : Settings := standard.overlay environment

/-- The settings that are in force where none are given: the standard ones, under the
environment unless that leads out of bounds. -/
def ambient (environment : Environment) : Settings :=
  match (ofEnvironment environment).fault? with
  | some _ => standard
  | none => ofEnvironment environment

/-! ## Files -/

/-- Why a file gives no settings. -/
inductive LoadFault where
  /-- The file cannot be read. -/
  | noFile (path reason : String)
  /-- What is in the file gives no settings. -/
  | document (path : String) (fault : DocumentFault)
  /-- The environment leads out of bounds. -/
  | outOfBounds (fault : SettingsFault)
deriving DecidableEq, Repr

/-- The texts of a fault, outermost first. -/
def LoadFault.chain : LoadFault → List String
  | .noFile path reason => [s!"Failed to read config file {path}", reason]
  | .document path fault => [s!"Invalid config file {path}", fault.message]
  | .outOfBounds fault => [fault.message]

/-- The settings that a file gives under an environment.  The content of the file is its
text, or the reason why it cannot be read. -/
def load (environment : Environment) (path : String) (content : Except String String)
    (reader : DocumentReader := Toml.documents) : Except LoadFault Settings :=
  match content with
  | .error reason => .error (.noFile path reason)
  | .ok source =>
      match ofDocument source reader with
      | .error fault => .error (.document path fault)
      | .ok settings => (settings.overlay environment).checked.mapError .outOfBounds

end Settings

end AmqpEnvelope
