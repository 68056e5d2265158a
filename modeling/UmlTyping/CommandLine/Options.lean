/-!
# Options

Arguments are read from left to right. An option with a value takes it from the same argument or from
the next one, where it must not look like an option; only the verbosity may be given twice. Single
letters may be joined. Arguments that are no options are roots, and after `--` all are. A request for
help or for the version is granted as soon as it is met, and the first mistake ends the reading.
-/

namespace UmlTyping.CommandLine

/-- What can be set by an option with a value. -/
inductive Setting where
  | model
  | output
  | find
deriving DecidableEq, Repr

/-- The options that are given. -/
structure Options where
  /-- The path of the model. -/
  model : Option String := none
  /-- The directory for the modules. -/
  output : Option String := none
  /-- What the names of the entries to list start with. -/
  find : Option String := none
  /-- How often more reports are asked for. -/
  verbosity : Nat := 0
  /-- The roots. -/
  roots : List String := []
deriving DecidableEq, Repr

/-- What the arguments ask for. -/
inductive Request where
  | proceed (options : Options)
  | help
  | version
  | misuse
deriving DecidableEq, Repr

/-- What an argument leads to. -/
inductive Step where
  | next (options : Options)
  /-- The value of a setting has to follow. -/
  | awaiting (options : Options) (setting : Setting)
  | done (request : Request)
deriving DecidableEq, Repr

/-- Sets what is not yet set. A path must not be empty. -/
def Options.set? (o : Options) (setting : Setting) (value : String) : Option Options :=
  match setting with
  | .model => if o.model.isSome ∨ value = "" then none else some { o with model := some value }
  | .output => if o.output.isSome ∨ value = "" then none else some { o with output := some value }
  | .find => if o.find.isSome then none else some { o with find := some value }

/-- Asks for one more level of reports. -/
def Options.verbose (o : Options) : Options := { o with verbosity := o.verbosity + 1 }

/-- The step of setting something. -/
def Step.setting (o : Options) (setting : Setting) (value : String) : Step :=
  match o.set? setting value with
  | some o => .next o
  | none => .done .misuse

/-- The setting with a long name. -/
def Setting.ofName? : String → Option Setting
  | "model" => some .model
  | "output" => some .output
  | "find" => some .find
  | _ => none

/-- The setting with a letter. -/
def Setting.ofLetter? : Char → Option Setting
  | 'm' => some .model
  | 'o' => some .output
  | _ => none

/-- Reads letters that are joined in one argument. What follows the letter of a setting is its value,
an equals sign in front left out. -/
def readLetters (o : Options) : List Char → Step
  | [] => .next o
  | 'v' :: rest => readLetters o.verbose rest
  | 'h' :: _ => .done .help
  | 'V' :: _ => .done .version
  | c :: rest =>
    match Setting.ofLetter? c, rest with
    | none, _ => .done .misuse
    | some setting, [] => .awaiting o setting
    | some setting, '=' :: value => .setting o setting (String.ofList value)
    | some setting, value => .setting o setting (String.ofList value)

/-- Reads a long option, with the value that is joined to it. -/
def readLong (o : Options) (name : String) (value : Option String) : Step :=
  match Setting.ofName? name, name, value with
  | some setting, _, some value => .setting o setting value
  | some setting, _, none => .awaiting o setting
  | none, "verbose", none => .next o.verbose
  | none, "help", none => .done .help
  | none, "version", none => .done .version
  | _, _, _ => .done .misuse

/-- Reads an argument that is no value. -/
def readArgument (o : Options) (argument : String) : Step :=
  match argument.toList with
  | '-' :: '-' :: text =>
    let name := String.ofList (text.takeWhile (· ≠ '='))
    match text.dropWhile (· ≠ '=') with
    | [] => readLong o name none
    | _ :: value => readLong o name (some (String.ofList value))
  | '-' :: c :: rest => readLetters o (c :: rest)
  | _ => .next { o with roots := o.roots ++ [argument] }

/-- Whether an argument cannot be a value, since it looks like an option. -/
def looksLikeOption (argument : String) : Bool :=
  argument.toList.head? = some '-' && argument ≠ "-"

/-- Reads arguments, while the value of a setting may be due. -/
def readArguments (o : Options) (due : Option Setting) : List String → Request
  | [] => if due.isSome then .misuse else .proceed o
  | argument :: rest =>
    match due with
    | some setting =>
      if looksLikeOption argument then .misuse
      else
        match o.set? setting argument with
        | some o => readArguments o none rest
        | none => .misuse
    | none =>
      if argument = "--" then .proceed { o with roots := o.roots ++ rest }
      else
        match readArgument o argument with
        | .next o => readArguments o none rest
        | .awaiting o setting => readArguments o (some setting) rest
        | .done request => request

/-- What arguments ask for. -/
def Request.ofArguments (arguments : List String) : Request :=
  readArguments {} none arguments

end UmlTyping.CommandLine
