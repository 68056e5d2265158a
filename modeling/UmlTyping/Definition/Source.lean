import UmlTyping.Definition.TypeExpr
import UmlTyping.Text.Json

/-!
# Source text of definitions

A definition is written as Python: an enumeration as a choice of literals, a primitive as another
name for text, and a record as a class that lists its fields. A field that is named like a keyword
cannot stand in a class, so a record with such a field passes its fields to `TypedDict` instead; if
it has a base, the class of its name derives from both the base and the record of the fields.
-/

namespace UmlTyping.Source

/-- The reserved words of Python. -/
def keywords : List String :=
  ["False", "None", "True", "and", "as", "assert", "async", "await", "break", "class", "continue",
   "def", "del", "elif", "else", "except", "finally", "for", "from", "global", "if", "import", "in",
   "is", "lambda", "nonlocal", "not", "or", "pass", "raise", "return", "try", "while", "with",
   "yield"]

/-- The bases of a record that has no base of its own. -/
def openRecord : String := "TypedDict, total=False"

/-- The line that every module starts with. -/
def typingImport : String := "from typing import Literal, TypedDict, Union"

/-- A definition of an enumeration. Literals are put between quotes as they are. -/
def enumeration (name : String) (literals : List String) : String :=
  name ++ " = Literal[" ++ ", ".intercalate (literals.map fun l => "\"" ++ l ++ "\"") ++ "]"

/-- A definition of a primitive. -/
def primitive (name : String) : String := name ++ " = str"

/-- A record whose fields are passed as a mapping from names to types. -/
def mapping (name : String) (fields : List (String × TypeExpr)) : String :=
  name ++ " = TypedDict('" ++ name ++ "', " ++
    Json.object (fields.map fun f => (f.1, f.2.text)) ++ ", total=False)"

/-- The head of a class. -/
def classHead (name bases : String) : String := "class " ++ name ++ "(" ++ bases ++ "):"

/-- A field in a class. -/
def fieldLine (field : String × TypeExpr) : String := "    " ++ field.1 ++ ": " ++ field.2.text

/-- A record whose fields stand in a class. -/
def classBody (name bases : String) (fields : List (String × TypeExpr)) : String :=
  if fields = [] then classHead name bases ++ " ..."
  else classHead name bases ++ "\n" ++ "\n".intercalate (fields.map fieldLine)

/-- Whether a class cannot hold the fields. -/
def needsMapping (fields : List (String × TypeExpr)) : Bool :=
  fields.any fun f => f.1 ∈ keywords

/-- A definition of a record, with the text of its base if it has one. -/
def record (name : String) (base : Option String) (fields : List (String × TypeExpr)) : String :=
  if needsMapping fields then
    match base with
    | none => mapping name fields
    | some base =>
      mapping ("_" ++ name) fields ++ "\n\n\n" ++ classHead name (base ++ ", _" ++ name) ++ " ..."
  else classBody name (base.getD openRecord) fields

end UmlTyping.Source
