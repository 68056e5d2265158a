import UmlTyping.Definition.Source
import UmlTyping.Run

/-!
# Compiling entries

`Entry.compile` turns an entry into a `Definition`: its source text, and the entries that have to be
defined before it. The kind is decided first, then the package; then an enumeration must have
literals, and a record is taken attribute by attribute, its base last.

A record may refer to itself. Such a reference is made forward and is no dependency, so no definition
depends on itself; only a record that is its own base is refused.
-/

namespace UmlTyping

/-- A compiled entry. -/
structure Definition where
  /-- The identifier of the entry. -/
  id : Identifier
  /-- The short name of its package. -/
  package : String
  /-- Its name. -/
  name : String
  /-- Its kind. -/
  kind : Kind
  /-- The fields of a record in their order, with their types. -/
  fields : List (String × TypeExpr) := []
  /-- The entries that have to be defined before, in the order in which they are first referred to. -/
  dependencies : List Identifier := []
  /-- The base of a record. -/
  base : Option TypeRef := none
  /-- The source text. -/
  code : String
deriving DecidableEq, Repr

/-- The fields and dependencies of a record, as far as its attributes are compiled. -/
structure Fields where
  /-- The fields with their types. -/
  types : List (String × TypeExpr) := []
  /-- The entries referred to, each once. -/
  dependencies : List Identifier := []
deriving DecidableEq, Repr

/-- The list with an element at its end, unless it is there already. -/
def addOnce (ids : List Identifier) (id : Identifier) : List Identifier :=
  if id ∈ ids then ids else ids ++ [id]

theorem addOnce_of_not_mem {ids : List Identifier} {id : Identifier} (h : id ∉ ids) :
    addOnce ids id = ids ++ [id] :=
  if_neg h

namespace Fields

/-- The names of the fields. -/
def names (f : Fields) : List String := f.types.map (·.1)

/-- Adds a field. That its name is free is not checked here. -/
def addType (f : Fields) (name : String) (t : TypeExpr) : Fields :=
  { f with types := f.types ++ [(name, t)] }

/-- Adds an entry that is referred to. -/
def addDependency (f : Fields) (id : Identifier) : Fields :=
  { f with dependencies := addOnce f.dependencies id }

/-- Adds what an attribute of the record `id` contributes. -/
def addAttribute (m : Model) (id : Identifier) (owner : String) (f : Fields) (a : Attribute) :
    Run DefinitionError Fields := do
  let (t, dependency) ← Run.ofExcept (a.resolve m owner)
  let isSelf := dependency = some id
  if isSelf then Run.report (.selfReference id a.name)
  if a.name ∈ f.names then
    throw (.model (.malformed (.duplicateAttribute id a.name)))
  if isSelf then
    pure (f.addType a.name (t.mapRef fun r => { r with forward := true }))
  else
    let f := f.addType a.name t
    pure (dependency.elim f f.addDependency)

/-- Adds what the attributes of the record `id` contribute. -/
def addAttributes (m : Model) (id : Identifier) (owner : String) (f : Fields) :
    List Attribute → Run DefinitionError Fields
  | [] => pure f
  | a :: rest => do
    let f ← f.addAttribute m id owner a
    addAttributes m id owner f rest

end Fields

namespace Entry

/-- The base of a record. -/
def resolveBase (m : Model) (e : Entry) (owner : String) :
    Except DefinitionError (Option TypeRef) :=
  match e.generalization with
  | none => .ok none
  | some general =>
    if general = e.id then .error (.cyclicDependency [e.id, e.id])
    else some <$> TypeRef.resolve m general owner

/-- Compiles an enumeration. -/
def compileEnumeration (e : Entry) (owner : String) : Except DefinitionError Definition :=
  if e.literals = [] then .error (.model (.missingField .literal))
  else .ok
    { id := e.id, package := owner, name := e.name, kind := .enumeration
      code := Source.enumeration e.name e.literals }

/-- Compiles a primitive. -/
def compilePrimitive (e : Entry) (owner : String) : Definition where
  id := e.id
  package := owner
  name := e.name
  kind := .primitive
  code := Source.primitive e.name

/-- Compiles a record. -/
def compileRecord (m : Model) (e : Entry) (owner : String) : Run DefinitionError Definition := do
  let f ← Fields.addAttributes m e.id owner {} e.attributes
  let base ← Run.ofExcept (e.resolveBase m owner)
  let dependencies := e.generalization.elim f.dependencies (addOnce f.dependencies)
  pure
    { id := e.id, package := owner, name := e.name, kind := .record
      fields := f.types, dependencies, base
      code := Source.record e.name (base.map (·.text)) f.types }

/-- Compiles an entry of a model. -/
def compile (m : Model) (e : Entry) : Run DefinitionError Definition := do
  let some kind := Kind.ofTag? e.tag | throw (.unsupportedKind e.tag)
  let some owner := e.id.package? | throw (.model (.invalidIdentifier e.id))
  Run.report (.compiling kind e.id)
  match kind with
  | .enumeration => Run.ofExcept (e.compileEnumeration owner)
  | .primitive => pure (e.compilePrimitive owner)
  | .record => e.compileRecord m owner

end Entry

end UmlTyping
