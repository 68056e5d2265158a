import UmlTyping.Definition.Compile

/-!
# Modules

Definitions are written out as one module per package. A module imports the sibling modules of the
packages that its definitions depend on, and then holds the definitions in the order in which they
are given.
-/

namespace UmlTyping

/-- What of a definition matters to the module that it is written to. -/
structure Piece where
  /-- The short name of the package. -/
  package : String
  /-- The entries that the definition depends on. -/
  dependencies : List Identifier
  /-- The source text. -/
  code : String
deriving DecidableEq, Repr

/-- The piece of source that a definition makes. -/
def Definition.piece (d : Definition) : Piece where
  package := d.package
  dependencies := d.dependencies
  code := d.code

/-- The source texts of modules under the short names of their packages. -/
abbrev Modules := Table String

namespace Modules

/-- The short name of the package that an identifier encodes, or an error. -/
def packageOf (id : Identifier) : Except DefinitionError String :=
  match id.package? with
  | some package => .ok package
  | none => .error (.model (.invalidIdentifier id))

/-- The packages that pieces of one package refer to, other than it, in ascending order. -/
def imports (package : String) (pieces : List Piece) : Except DefinitionError (List String) := do
  let packages ← (pieces.flatMap (·.dependencies)).mapM packageOf
  pure (Table.ofList ((packages.filter (· ≠ package)).map (·, ()))).keys

/-- The line that imports a sibling module. -/
def importLine (package : String) : String := "from . import " ++ package ++ "\n"

/-- The source text of a module. -/
def text (imports : List String) (pieces : List Piece) : String :=
  Source.typingImport ++ "\n" ++ String.join (imports.map importLine) ++ "\n\n" ++
    String.join (pieces.map fun p => p.code ++ "\n\n")

/-- The packages of pieces, in ascending order. -/
def packages (pieces : List Piece) : List String :=
  (Table.ofList (pieces.map fun p => (p.package, ()))).keys

/-- Composes the modules of some packages, in addition to those that are composed. -/
def composeFrom (pieces : List Piece) (done : Modules) :
    List String → Run DefinitionError Modules
  | [] => pure done
  | package :: rest => do
    let own := pieces.filter (·.package = package)
    let imported ← Run.ofExcept (imports package own)
    Run.report (.composing package own.length imported)
    composeFrom pieces (done.insert package (text imported own)) rest

/-- Composes pieces into modules, package by package in ascending order. -/
def compose (pieces : List Piece) : Run DefinitionError Modules :=
  composeFrom pieces ∅ (packages pieces)

end Modules

end UmlTyping
