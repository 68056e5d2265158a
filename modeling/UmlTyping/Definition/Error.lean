import UmlTyping.Model.Error

/-!
# Why definitions cannot be made

Errors of compiling an entry, of putting definitions in order and of composing modules.
-/

namespace UmlTyping

/-- Why definitions cannot be made. -/
inductive DefinitionError where
  /-- The model is at fault. -/
  | model (e : ModelError)
  /-- The tag stands for no kind. -/
  | unsupportedKind (tag : String)
  /-- No entry has the identifier. -/
  | unresolvedReference (id : String)
  /-- The bounds express no arity. -/
  | unexpectedArity (lower upper : String)
  /-- Each entry of the path needs the next one, and the last is the first. -/
  | cyclicDependency (path : List String)
deriving DecidableEq, Repr

/-- The wording of an error. -/
def DefinitionError.message : DefinitionError → String
  | .model e => e.message
  | .unsupportedKind tag => s!"unsupported entry kind \"{tag}\""
  | .unresolvedReference id => s!"unresolved reference to {id}"
  | .unexpectedArity lower upper => s!"unexpected arity {lower} - {upper}"
  | .cyclicDependency path => "cyclic dependency: " ++ " -> ".intercalate path

end UmlTyping
