import UmlTyping.Xml.Tag

/-!
# Bindings

An attribute `xmlns:p` binds the qualifier `p` to a namespace. Namespaces are compared as written,
with their references unread. Two of them belong to the qualifiers `xml` and `xmlns` alone, and
`xmlns` cannot be bound.
-/

namespace UmlTyping.Xml

/-- A qualifier with the namespace that it is bound to. -/
structure Binding where
  /-- The qualifier. -/
  qualifier : String
  /-- The namespace as written. -/
  value : List Char
deriving DecidableEq, Repr

/-- The namespace of the qualifier `xml`. -/
def xmlNamespace : String := "http://www.w3.org/XML/1998/namespace"

/-- The namespace of the qualifier `xmlns`. -/
def xmlnsNamespace : String := "http://www.w3.org/2000/xmlns/"

/-- The namespace of the attribute that marks an element as absent. -/
def instanceNamespace : String := "http://www.w3.org/2001/XMLSchema-instance"

/-- Whether the attribute binds a namespace, to a qualifier or as the default. -/
def TagAttribute.isBinding (a : TagAttribute) : Bool :=
  a.name = "xmlns" || (splitName a.name).1 = some "xmlns"

/-- The binding that an attribute makes. -/
def TagAttribute.binding? (a : TagAttribute) : Option Binding :=
  match splitName a.name with
  | (some "xmlns", qualifier) => some ⟨qualifier, a.value⟩
  | _ => none

/-- Whether a reserved qualifier or namespace is bound other than to one another. -/
def Binding.isReserved (b : Binding) : Bool :=
  if b.qualifier = "xml" then b.value ≠ xmlNamespace.toList
  else b.qualifier = "xmlns" || b.value = xmlNamespace.toList || b.value = xmlnsNamespace.toList

namespace Tag

/-- Whether the tag makes a reserved binding. -/
def bindsReserved (tag : Tag) : Bool :=
  (tag.attributes.filterMap TagAttribute.binding?).any Binding.isReserved

/-- The bindings that the tag makes, up to the first reserved one. The empty qualifier cannot be
used, so what is bound to it is left out. -/
def bindings (tag : Tag) : List Binding :=
  ((tag.attributes.filterMap TagAttribute.binding?).takeWhile (!·.isReserved)).filter
    (·.qualifier ≠ "")

end Tag

end UmlTyping.Xml
