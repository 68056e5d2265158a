import UmlTyping.CommandLine.Options
import UmlTyping.Generation

/-!
# Outcomes

What a program run comes to, and what is shown of it: an exit code, the text of the standard output,
and the text of the error output, where reports come before the ending.
-/

namespace UmlTyping.CommandLine

/-- Why a run fails. -/
inductive Failure where
  | generating (model : String) (e : GenerationError)
  | reading (model : String) (fault : Disk.Fault)
  | loading (e : ModelError)
deriving DecidableEq, Repr

/-- How a run ends. -/
inductive Ending where
  | misuse
  | help
  | version
  /-- Entries were found. -/
  | listed (entries : List Entry)
  /-- Modules were written. -/
  | generated (modules : Nat) (directory : String)
  | failed (failure : Failure)
deriving DecidableEq, Repr

/-- What a run comes to. -/
structure Outcome where
  /-- The verbosity that was asked for. -/
  verbosity : Nat := 0
  /-- What was reported. -/
  events : List Event := []
  /-- How the run ended. -/
  ending : Ending

/-- What could not be done. -/
def Failure.context : Failure → String
  | .generating model _ => "failed to generate types from " ++ model
  | .reading model _ => "failed to read " ++ model
  | .loading _ => "failed to load the data model"

/-- Why it could not be done. -/
def Failure.cause : Failure → String
  | .generating _ e => e.message
  | .reading _ fault => fault.message
  | .loading e => e.message

/-- The text with four blanks at the start of every line but the first. -/
def hang (text : String) : String :=
  String.ofList (text.toList.flatMap fun c => if c = '\n' then "\n    ".toList else [c])

/-- The help text. -/
def helpText : String :=
  "Compile the B2B UML data model into Python typing definitions\n\n" ++
  "Usage: b2b-codegen [OPTIONS] [ROOTS]...\n\n" ++
  "Arguments:\n" ++
  "  [ROOTS]...  Identifiers of the entries to generate (defaults to the request and reply " ++
  "types of the supported services)\n\n" ++
  "Options:\n" ++
  "  -m, --model <MODEL>    Path of the XMI data model [default: model/datamodel.xmi]\n" ++
  "  -o, --output <OUTPUT>  Directory the Python modules are written to " ++
  "[default: src/pyb2b/types/generated]\n" ++
  "      --find <PREFIX>    List the identifiers of entries whose name starts with PREFIX " ++
  "and exit\n" ++
  "  -v, --verbose...       Increase logging verbosity (-v info, -vv debug, -vvv trace)\n" ++
  "  -h, --help             Print help\n" ++
  "  -V, --version          Print version\n"

/-- The text that tells the version. -/
def versionText : String := "b2b-codegen 0.1.0\n"

/-- The text that answers arguments which cannot be understood. -/
def usageText : String :=
  "error: the arguments cannot be understood\n\n" ++
  "Usage: b2b-codegen [OPTIONS] [ROOTS]...\n\n" ++
  "For more information, try '--help'.\n"

/-- The least urgent level that is shown at a verbosity. -/
def levelOf : Nat → Level
  | 0 => .warn
  | 1 => .info
  | 2 => .debug
  | _ => .trace

/-- The line that shows an event. -/
def eventLine (e : Event) : String :=
  let level := String.ofList (e.level.name.toList.rightpad 5 ' ')
  "[" ++ level ++ " " ++ e.target ++ "] " ++ hang e.text ++ "\n"

namespace Ending

/-- The exit code. -/
def code : Ending → Nat
  | misuse => 2
  | failed _ => 1
  | _ => 0

/-- What is written to the standard output. -/
def output : Ending → String
  | help => helpText
  | version => versionText
  | listed entries => String.join (entries.map fun e => e.id ++ "\t" ++ e.tag ++ "\n")
  | _ => ""

/-- What is written to the error output. -/
def diagnostics : Ending → String
  | misuse => usageText
  | generated modules directory => s!"Generated {modules} module(s) in {directory}\n"
  | failed failure =>
    "Error: " ++ failure.context ++ "\n\nCaused by:\n    " ++ hang failure.cause ++ "\n"
  | _ => ""

end Ending

namespace Outcome

/-- What is written to the error output, reports first. -/
def errorOutput (o : Outcome) : String :=
  let shown := o.events.filter fun e => (levelOf o.verbosity).admits e.level
  String.join (shown.map eventLine) ++ o.ending.diagnostics

/-- The outcome of looking for the entries of a document whose names start with a text. -/
def ofFind (verbosity : Nat) (start : String) (bytes : ByteArray) : Outcome :=
  let loaded := Model.load bytes
  let ending :=
    match loaded.result with
    | .ok m => .listed (m.findByName start)
    | .error e => .failed (.loading e)
  { verbosity, events := loaded.events, ending }

/-- The outcome of a generation. -/
def ofGeneration (verbosity : Nat) (c : Config) (generated : Run GenerationError Modules) :
    Outcome :=
  let ending :=
    match generated.result with
    | .ok ms => .generated ms.size c.output
    | .error e => .failed (.generating c.model e)
  { verbosity, events := generated.events, ending }

end Outcome

/-- The path of the model that options name. -/
def Options.modelPath (o : Options) : String := o.model.getD Config.default.model

/-- The settings of the generation that options ask for. -/
def Options.config (o : Options) : Config where
  model := o.modelPath
  output := o.output.getD Config.default.output
  roots := if o.roots = [] then Config.default.roots else o.roots

/-- Runs the program on a disk. -/
def run (arguments : List String) (d : Disk) : Disk × Outcome :=
  match Request.ofArguments arguments with
  | .misuse => (d, { ending := .misuse })
  | .help => (d, { ending := .help })
  | .version => (d, { ending := .version })
  | .proceed o =>
    match o.find with
    | some start =>
      match d.read o.modelPath with
      | .error fault =>
        (d, { verbosity := o.verbosity, ending := .failed (.reading o.modelPath fault) })
      | .ok bytes => (d, .ofFind o.verbosity start bytes)
    | none =>
      let (d, generated) := o.config.run d
      (d, .ofGeneration o.verbosity o.config generated)

end UmlTyping.CommandLine
