/-!
# Elements of a model document

What a document says about a model, before anything is asked of it: every name, identifier and
reference may be missing. Packages and the entries in them are written as the same kind of element,
which the tag alone tells apart.
-/

namespace UmlTyping.Xmi

/-- The tag of packages. -/
def packageTag : String := "uml:Package"

/-- An attribute that an element owns. -/
structure OwnedAttribute where
  /-- Its name. -/
  name : Option String
  /-- The identifier of the type of its values. -/
  typeRef : Option String
  /-- The least number of values. -/
  lower : Option String
  /-- The greatest number of values. -/
  upper : Option String
deriving DecidableEq, Repr

/-- A package, or an entry of one. -/
structure Element where
  /-- The identifier. -/
  id : Option String
  /-- What kind of element this is. -/
  tag : Option String
  /-- The name. -/
  name : Option String
  /-- The elements inside, in the order of the document, as are all lists here. -/
  elements : List Element
  /-- The attributes. -/
  attributes : List OwnedAttribute
  /-- The names of the literals. -/
  literals : List (Option String)
  /-- The identifiers of the elements that this one specialises. -/
  generalizations : List (Option String)

/-- Whether the element is a package. -/
def Element.isPackage (e : Element) : Bool := e.tag = some packageTag

/-- Whether the element has neither identifier nor tag. -/
def Element.isAnonymous (e : Element) : Bool := e.id = none && e.tag = none

/-- What a document says about its model. -/
structure Document where
  /-- The name of the model. -/
  name : Option String
  /-- The elements at the top. -/
  elements : List Element

end UmlTyping.Xmi
