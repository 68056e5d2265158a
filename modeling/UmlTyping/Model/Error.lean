import UmlTyping.Identifier
import UmlTyping.Text.Utf8
import UmlTyping.Xmi.Reading

/-!
# Why a model cannot be used

A document may not be a model document, entries of a model may lack a part, or an identifier may not
say where its entry belongs. The causes are kept apart, and `ModelError.message` words them.
-/

namespace UmlTyping

/-- How a document fails to describe a model, or a model to describe a definition. -/
inductive Malformation where
  /-- The bytes are not text. -/
  | encoding (fault : Utf8.Fault)
  /-- The text is not a model document. -/
  | document (fault : Xmi.Fault)
  /-- There is nothing to index. -/
  | noPackage
  /-- Two entries of one package have the same identifier. -/
  | duplicateIdentifier (package : String)
  /-- An entry specialises more than one other. -/
  | severalGeneralizations (id : String)
  /-- A record has two attributes of one name. -/
  | duplicateAttribute (id field : String)
deriving DecidableEq, Repr

/-- A part that an element must have. -/
inductive Field where
  | packageName
  | id
  | tag
  | name
  | literalName
  | attributeName
  | attributeType
  | general
  | literal
deriving DecidableEq, Repr

/-- Why a model cannot be used. -/
inductive ModelError where
  | malformed (how : Malformation)
  | missingField (field : Field)
  /-- The identifier encodes no package. -/
  | invalidIdentifier (id : String)
deriving DecidableEq, Repr

/-- The wording of a malformation. One wording of its own stands for all that a reader of markup may
find wrong with a text that is not well-formed. -/
def Malformation.message : Malformation → String
  | .encoding (.invalid width index) =>
    s!"invalid utf-8 sequence of {width} bytes from index {index}"
  | .encoding (.incomplete index) => s!"incomplete utf-8 byte sequence from index {index}"
  | .document .illFormed => "the document is not well-formed"
  | .document (.missing field) => "missing field `" ++ field ++ "`"
  | .document (.repeated field) => "duplicate field `" ++ field ++ "`"
  | .noPackage => "model contains no package"
  | .duplicateIdentifier package => s!"duplicate identifier in package {package}"
  | .severalGeneralizations id => s!"{id} declares more than one generalization"
  | .duplicateAttribute id field => s!"{id} declares attribute {field} twice"

/-- The name of a field, as messages give it. -/
def Field.label : Field → String
  | .packageName => "package name"
  | .id => "xmi:id"
  | .tag => "xmi:type"
  | .name => "name"
  | .literalName => "ownedLiteral name"
  | .attributeName => "ownedAttribute name"
  | .attributeType => "ownedAttribute type"
  | .general => "general"
  | .literal => "ownedLiteral"

/-- The wording of an error. -/
def ModelError.message : ModelError → String
  | .malformed how => "malformed model: " ++ how.message
  | .missingField field => "missing required field: " ++ field.label
  | .invalidIdentifier id => s!"identifier \"{id}\" does not encode a package"

namespace Identifier

/-- What an identifier encodes, or the error that it encodes nothing. -/
def orInvalid (id : Identifier) : Option String → Except ModelError String
  | some package => .ok package
  | none => .error (.invalidIdentifier id)

/-- The package path that the identifier encodes, or an error. -/
def qualifiedPackage (id : Identifier) : Except ModelError String :=
  id.orInvalid id.qualifiedPackage?

/-- The last segment of the package path that the identifier encodes, or an error. -/
def package (id : Identifier) : Except ModelError String :=
  id.orInvalid id.package?

end Identifier

end UmlTyping
