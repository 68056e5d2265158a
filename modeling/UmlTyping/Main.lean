import UmlTyping.CommandLine.Outcome

/-!
# The program

Does on the file system what `CommandLine.run` does on a `Disk`: it reads one file, writes the
modules that come of it, and shows the outcome.
-/

namespace UmlTyping.Program

open CommandLine

/-- The number and wording of what the system reports. -/
def systemError : IO.Error → Nat × String
  | .alreadyExists _ code text | .invalidArgument _ code text | .permissionDenied _ code text
  | .resourceExhausted _ code text | .inappropriateType _ code text | .noSuchThing _ code text
  | .otherError code text | .resourceBusy code text | .resourceVanished code text
  | .unsupportedOperation code text | .hardwareFault code text
  | .unsatisfiedConstraints code text | .illegalOperation code text | .protocolError code text
  | .timeExpired code text | .interrupted _ code text | .noFileOrDirectory _ code text =>
    (code.toNat, text)
  | .unexpectedEof => (0, "unexpected end of file")
  | .userError text => (0, text)

/-- The fault that the system reports. -/
def faultOf (e : IO.Error) : Disk.Fault :=
  match systemError e with
  | (2, _) => .notFound
  | (17, _) => .alreadyExists
  | (20, _) => .notDirectory
  | (21, _) => .isDirectory
  | (36, _) => .nameTooLong
  | (code, text) => .other code text

/-- Does something with a file or directory. -/
def attempt {α : Type} (act : IO α) : IO (Except Disk.Fault α) := do
  return (← act.toBaseIO).mapError faultOf

/-- Writes modules in turn, up to the first fault. -/
def writeFiles (directory : String) : List (String × String) → IO (Run Disk.Fault Unit)
  | [] => return pure ()
  | (package, content) :: rest => do
    let path := Modules.filePath directory package
    match ← attempt (IO.FS.writeFile path content) with
    | .error fault => return throw fault
    | .ok () =>
      let written ← writeFiles directory rest
      return do
        Run.report (.generatedModule path)
        written

/-- Writes modules into a directory, which is made if it is missing. -/
def writeModules (ms : Modules) (directory : String) : IO (Run Disk.Fault Unit) := do
  let made ← attempt (if directory = "" then pure () else IO.FS.createDirAll directory)
  if let .error fault := made then return throw fault
  let begun ← attempt (IO.FS.writeFile (Path.join directory Modules.packageInit) "")
  if let .error fault := begun then return throw fault
  writeFiles directory ms.entries

/-- Runs a generation. -/
def generate (c : Config) : IO (Run GenerationError Modules) := do
  match ← attempt (IO.FS.readBinFile c.model) with
  | .error fault =>
    return do
      Run.report (.loadingFile c.model)
      throw (.disk fault)
  | .ok bytes =>
    let generated := c.generate bytes
    match generated.result with
    | .error _ => return generated
    | .ok ms =>
      let written ← writeModules ms c.output
      return do
        let ms ← generated
        written.mapError .disk
        Run.report (.generatedModules ms.size c.output)
        pure ms

/-- Does what the arguments ask for. -/
def perform (arguments : List String) : IO Outcome := do
  match Request.ofArguments arguments with
  | .misuse => return { ending := .misuse }
  | .help => return { ending := .help }
  | .version => return { ending := .version }
  | .proceed o =>
    match o.find with
    | some start =>
      match ← attempt (IO.FS.readBinFile o.modelPath) with
      | .error fault =>
        return { verbosity := o.verbosity, ending := .failed (.reading o.modelPath fault) }
      | .ok bytes => return .ofFind o.verbosity start bytes
    | none => return .ofGeneration o.verbosity o.config (← generate o.config)

end UmlTyping.Program

/-- Runs the program and shows what it comes to. -/
def main (arguments : List String) : IO UInt32 := do
  let outcome ← UmlTyping.Program.perform arguments
  IO.print outcome.ending.output
  IO.eprint outcome.errorOutput
  return outcome.ending.code.toUInt32
