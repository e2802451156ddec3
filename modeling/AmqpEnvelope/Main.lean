import AmqpEnvelope.Inspection

/-!
# Command line

`FILE [-d|--dump] [-c|--config FILE] [-l|--log-level LEVEL]`

Reads the files, carries out the inspection, prints what it gives and ends with its status.
The level of log output is accepted and has no effect, since nothing is logged.
-/

namespace AmqpEnvelope.CommandLine

/-- The arguments of the inspector. -/
structure Arguments where
  file : Option String
  dump : Bool
  config : Option String

/-- Read arguments in front of earlier ones; there are none if they make no sense. -/
def Arguments.read (seen : Arguments) : List String → Option Arguments
  | [] => some seen
  | "-d" :: rest => read { seen with dump := true } rest
  | "--dump" :: rest => read { seen with dump := true } rest
  | "-c" :: path :: rest => read { seen with config := some path } rest
  | "--config" :: path :: rest => read { seen with config := some path } rest
  | "-l" :: _ :: rest => read seen rest
  | "--log-level" :: _ :: rest => read seen rest
  | argument :: rest =>
      if argument.startsWith "-" || seen.file.isSome then none
      else read { seen with file := some argument } rest

/-- How the program is called. -/
def usage : String :=
  "Usage: envelope-inspect <FILE> [--dump] [--config <CONFIG>] [--log-level <LOG_LEVEL>]"

/-- The reason why a file cannot be read. -/
def reasonOf : IO.Error → String
  | .noFileOrDirectory _ code details => s!"{details} (os error {code})"
  | .permissionDenied _ code details => s!"{details} (os error {code})"
  | .inappropriateType _ code details => s!"{details} (os error {code})"
  | e => toString e

/-- The bytes of a file. -/
def readBytes (path : String) : IO (FileContent ByteArray) := do
  try
    let content ← IO.FS.readBinFile path
    return ⟨path, .ok content⟩
  catch e =>
    return ⟨path, .error (reasonOf e)⟩

/-- The text of a file. -/
def readText (path : String) : IO (FileContent String) := do
  let file ← readBytes path
  match file.content with
  | .error reason => return ⟨path, .error reason⟩
  | .ok bytes =>
      match String.fromUTF8? bytes with
      | some text => return ⟨path, .ok text⟩
      | none => return ⟨path, .error "stream did not contain valid UTF-8"⟩

/-- The variables that override settings. -/
def readEnvironment : IO Settings.Environment := do
  let found ← Setting.all.mapM fun s => do
    return (s.environmentName, ← IO.getEnv s.environmentName)
  return fun name => (found.lookup name).join

/-- The texts of a fault as they are shown at the end. -/
def faultText : List String → String
  | [] => "Error"
  | [message] => s!"Error: {message}"
  | [message, cause] => s!"Error: {message}\n\nCaused by:\n    {cause}"
  | message :: causes =>
      let numbered := causes.zipIdx.map fun (cause, i) => s!"\n    {i}: {cause}"
      s!"Error: {message}\n\nCaused by:" ++ String.join numbered

/-- Carry out what the arguments ask for. -/
def execute (arguments : Arguments) (path : String) : IO UInt32 := do
  let stream ← readBytes path
  let settings ← arguments.config.mapM readText
  let request : Inspection :=
    { stream := ⟨path, stream.content.map fun bytes => bytes.toList⟩
      showsStructure := arguments.dump
      settings := settings
      environment := ← readEnvironment }
  let outcome := request.run
  IO.print outcome.output
  match outcome.fault with
  | some fault => IO.eprintln (faultText fault.chain)
  | none => pure ()
  return UInt32.ofNat outcome.status

end AmqpEnvelope.CommandLine

open AmqpEnvelope.CommandLine in
/-- The inspector. -/
def main (args : List String) : IO UInt32 := do
  match Arguments.read ⟨none, false, none⟩ args with
  | some arguments =>
      match arguments.file with
      | some path => execute arguments path
      | none =>
          IO.eprintln usage
          return 2
  | none =>
      IO.eprintln usage
      return 2
