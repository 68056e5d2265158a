import UmlTyping.Definition.Error
import UmlTyping.Model.Basic

/-!
# Types of fields

The type of a field follows from what the attribute refers to and how many values it may have. The
boolean and the built-in primitives map to scalars; everything else is a reference to an entry, seen
from the package that the attribute stands in. A field with many values also takes a single one.
-/

namespace UmlTyping

/-- An entry as referred to from some package. -/
structure TypeRef where
  /-- The short name of its package, unless that is the one it is referred to from. -/
  package : Option String
  /-- The name of the entry. -/
  name : String
  /-- Whether the name is quoted, because it is not bound yet where it is read. -/
  forward : Bool := false
deriving DecidableEq, Repr

/-- The type of a field. -/
inductive TypeExpr where
  /-- A truth value. -/
  | boolean
  /-- A built-in scalar. -/
  | string
  /-- One value of an entry. -/
  | single (ref : TypeRef)
  /-- One value of an entry, or a list of them. -/
  | oneOrMany (ref : TypeRef)
deriving DecidableEq, Repr

/-- How many values an attribute has. -/
inductive Arity where
  /-- Exactly one. -/
  | required
  /-- At most one. -/
  | optional
  /-- Any number. -/
  | many
deriving DecidableEq, Repr

/-- The identifier of the boolean, which has no entry. -/
def booleanId : Identifier := "ID_Boolean"

/-- The package of the built-in primitives. -/
def primitivePackage : String := "PrimitiveTypes"

namespace TypeRef

/-- The reference in source text. -/
def text (r : TypeRef) : String :=
  let qualified :=
    match r.package with
    | some package => package ++ "." ++ r.name
    | none => r.name
  if r.forward then "'" ++ qualified ++ "'" else qualified

/-- The reference to the entry with an identifier, from a package given by its short name. -/
def resolve (m : Model) (id : Identifier) (owner : String) : Except DefinitionError TypeRef :=
  match m.find? id with
  | none => .error (.unresolvedReference id)
  | some entry =>
    match id.package? with
    | none => .error (.model (.invalidIdentifier id))
    | some package =>
      .ok { package := if package = owner then none else some package, name := entry.name }

end TypeRef

namespace TypeExpr

/-- The type in source text. -/
def text : TypeExpr → String
  | boolean => "Literal['true', 'false']"
  | string => "str"
  | single r => r.text
  | oneOrMany r => "Union[" ++ r.text ++ ", list[" ++ r.text ++ "]]"

/-- The entry that the type refers to, if it refers to one. -/
def ref? : TypeExpr → Option TypeRef
  | boolean | string => none
  | single r | oneOrMany r => some r

/-- The type with its reference changed. -/
def mapRef (f : TypeRef → TypeRef) : TypeExpr → TypeExpr
  | boolean => boolean
  | string => string
  | single r => single (f r)
  | oneOrMany r => oneOrMany (f r)

@[simp] theorem ref?_mapRef (f : TypeRef → TypeRef) (t : TypeExpr) :
    (t.mapRef f).ref? = t.ref?.map f := by
  cases t <;> rfl

end TypeExpr

/-- The arity that two bounds express. -/
def Arity.ofBounds? (lower upper : String) : Option Arity :=
  if upper = "1" then
    if lower = "1" then some .required else if lower = "0" then some .optional else none
  else if upper = "*" then
    if lower = "0" ∨ lower = "1" then some .many else none
  else none

/-- The arity that two bounds express, or an error. -/
def Arity.ofBounds (lower upper : String) : Except DefinitionError Arity :=
  match ofBounds? lower upper with
  | some arity => .ok arity
  | none => .error (.unexpectedArity lower upper)

/-- The type of a field with an arity. -/
def Arity.typeExpr : Arity → TypeRef → TypeExpr
  | required, r | optional, r => .single r
  | many, r => .oneOrMany r

/-- The type of an attribute of a record in the package `owner`, and the identifier of the entry that
it depends on. The bounds of a scalar are not looked at. -/
def Attribute.resolve (m : Model) (a : Attribute) (owner : String) :
    Except DefinitionError (TypeExpr × Option Identifier) :=
  if a.typeRef = booleanId then .ok (.boolean, none)
  else if m.files primitivePackage a.typeRef then .ok (.string, none)
  else do
    let arity ← Arity.ofBounds a.lower a.upper
    let r ← TypeRef.resolve m a.typeRef owner
    pure (arity.typeExpr r, some a.typeRef)

end UmlTyping
