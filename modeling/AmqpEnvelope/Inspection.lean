import AmqpEnvelope.Outline
import AmqpEnvelope.Report
import AmqpEnvelope.Settings.Load

/-!
# Inspection

What the inspector prints for one file, and with which error it ends.  Printing comes before
failing: the structure is printed even when the settings are bad or the stream does not
decode, while a report is printed as a whole or not at all.
-/

namespace AmqpEnvelope

/-- A file by its path, with its content or the reason why it cannot be read. -/
structure FileContent (α : Type) where
  path : String
  content : Except String α

/-- What an inspection is asked for. -/
structure Inspection where
  /-- The stream. -/
  stream : FileContent Bytes
  /-- Print the bytes and the outline first. -/
  showsStructure : Bool
  /-- A document with settings. -/
  settings : Option (FileContent String)
  environment : Settings.Environment

namespace Inspection

/-- Why an inspection fails. -/
inductive Fault where
  /-- The stream cannot be read. -/
  | noFile (path reason : String)
  /-- There are no settings. -/
  | settings (fault : Settings.LoadFault)
  /-- The stream does not decode. -/
  | root (error : DecodeError)
  /-- The body of the signed transaction does not decode. -/
  | body (error : DecodeError)
deriving DecidableEq

/-- The texts of a fault, outermost first. -/
def Fault.chain : Fault → List String
  | .noFile path reason => [s!"Failed to read {path}", reason]
  | .settings fault => fault.chain
  | .root error => error.chain
  | .body error => "Failed to decode the transaction body" :: error.chain

/-- What an inspection prints, and the fault with which it ends, if any. -/
structure Outcome where
  /-- The texts that are printed, each with a line end behind it. -/
  printed : List String
  fault : Option Fault

/-- The printed form of an outcome. -/
def Outcome.output (outcome : Outcome) : String :=
  String.join (outcome.printed.map (· ++ "\n"))

/-- The status with which the inspector ends. -/
def Outcome.status (outcome : Outcome) : Nat := if outcome.fault.isSome then 1 else 0

/-- The bytes and the outline of a stream, with an empty line behind each.  A stream that is
not well formed has no outline. -/
def structureTexts (bytes : Bytes) : List String :=
  let outline := match Outline.ofBytes bytes with
    | .ok outline => [outline.text]
    | .error _ => []
  [hexListing bytes, ""] ++ outline ++ [""]

/-- The settings that an inspection works under. -/
def chosenSettings (request : Inspection) : Except Settings.LoadFault Settings :=
  match request.settings with
  | some file => Settings.load request.environment file.path file.content
  | none => .ok (Settings.ambient request.environment)

/-- The report on a stream. -/
def report (settings : Settings) (bytes : Bytes) : Except Fault (List String) :=
  let registry := Registry.standard settings
  match registry.decodeAny bytes with
  | .error e => .error (.root e)
  | .ok root => (Report.lines registry root).mapError .body

/-- Carry out an inspection. -/
def run (request : Inspection) : Outcome :=
  match request.stream.content with
  | .error reason => ⟨[], some (.noFile request.stream.path reason)⟩
  | .ok bytes =>
      let shown := if request.showsStructure then structureTexts bytes else []
      match request.chosenSettings with
      | .error fault => ⟨shown, some (.settings fault)⟩
      | .ok settings =>
          match report settings bytes with
          | .error fault => ⟨shown, some fault⟩
          | .ok lines => ⟨shown ++ lines, none⟩

end Inspection

end AmqpEnvelope
