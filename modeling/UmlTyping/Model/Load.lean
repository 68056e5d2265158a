import UmlTyping.Model.Basic
import UmlTyping.Model.Error
import UmlTyping.Run

/-!
# Loading a model

Packages may hold entries, other packages, or both. A package is indexed under its own name if it
holds anything that is not a package, or nothing at all; what only groups packages is not. A package
that is indexed later takes the place of an earlier one of the same name.

An element of a package without identifier and tag is passed over. Any other has to be an entry in
full, and no two entries of one package may share their identifier.
-/

namespace UmlTyping

open Xmi (OwnedAttribute Element Document)

/-- The bound of an attribute that states none. -/
def defaultBound : String := "1"

/-- The part of an element that a field names, which has to be there. -/
def require (field : Field) : Option String → Except ModelError String
  | some value => .ok value
  | none => .error (.missingField field)

/-- The attribute that an element describes. -/
def Attribute.ofOwned (a : OwnedAttribute) : Except ModelError Attribute := do
  let name ← require .attributeName a.name
  let typeRef ← require .attributeType a.typeRef
  pure { name, typeRef, lower := a.lower.getD defaultBound, upper := a.upper.getD defaultBound }

/-- The one entry that an entry may specialise. -/
def generalizationOf (id : Identifier) :
    List (Option String) → Except ModelError (Option Identifier)
  | [] => .ok none
  | first :: others => do
    let general ← require .general first
    if others = [] then pure (some general)
    else throw (.malformed (.severalGeneralizations id))

/-- The entry that an element describes. -/
def Entry.ofElement (e : Element) : Except ModelError Entry := do
  let id ← require .id e.id
  let tag ← require .tag e.tag
  let name ← require .name e.name
  let literals ← e.literals.mapM (require .literalName)
  let attributes ← e.attributes.mapM Attribute.ofOwned
  let generalization ← generalizationOf id e.generalizations
  pure { id, tag, name, literals, attributes, generalization }

namespace Model

/-- Files the elements of a package as its entries, after those that are filed. -/
def indexMembers (package : String) (entries : Table Entry) :
    List Element → Run ModelError (Table Entry)
  | [] => pure entries
  | e :: rest => do
    if e.isAnonymous then
      Run.report (.skippingAnonymous package)
      indexMembers package entries rest
    else
      let entry ← Run.ofExcept (Entry.ofElement e)
      Run.report (.indexing entry.id entry.tag)
      if entries.contains entry.id then
        throw (.malformed (.duplicateIdentifier package))
      indexMembers package (entries.insert entry.id entry) rest

/-- Files a package with its own elements, unless it only groups packages. -/
def indexOwn (packages : Table Package) (name : String) (elements : List Element) :
    Run ModelError (Table Package) := do
  let members := elements.filter (!·.isPackage)
  if members.isEmpty && !elements.isEmpty then
    pure packages
  else
    let entries ← indexMembers name ∅ members
    Run.report (.indexedPackage name entries.size)
    pure (packages.insert name { name, entries })

mutual

/-- Files a package and those that are nested in it. -/
def indexPackage (packages : Table Package) : Element → Run ModelError (Table Package)
  | ⟨_, _, name, elements, _, _, _⟩ => do
    let name ← Run.ofExcept (require .packageName name)
    let packages ← indexOwn packages name elements
    indexNested packages elements

/-- Files the packages among some elements. -/
def indexNested (packages : Table Package) : List Element → Run ModelError (Table Package)
  | [] => pure packages
  | e :: rest => do
    if e.isPackage then
      let packages ← indexPackage packages e
      indexNested packages rest
    else
      indexNested packages rest

end

/-- Files the packages at the top of a document. -/
def indexTop (packages : Table Package) : List Element → Run ModelError (Table Package)
  | [] => pure packages
  | e :: rest => do
    if e.isPackage then
      let packages ← indexPackage packages e
      indexTop packages rest
    else
      Run.report (.skippingTopLevel e.id)
      indexTop packages rest

/-- The model that a document describes. -/
def ofDocument (d : Document) : Run ModelError Model := do
  Run.report (.loadingModel d.name d.elements.length)
  let packages ← indexTop ∅ d.elements
  if packages.isEmpty then
    throw (.malformed .noPackage)
  let m : Model := { packages }
  Run.report (.loadedModel packages.size m.ids.length)
  pure m

/-- The document that bytes hold. -/
def decodeDocument (bytes : ByteArray) : Except ModelError Document := do
  let text ← (Utf8.decode bytes).mapError (.malformed ∘ .encoding)
  (Document.parse text).mapError (.malformed ∘ .document)

/-- Loads the model of a document, given as bytes. -/
def load (bytes : ByteArray) : Run ModelError Model := do
  let document ← Run.ofExcept (decodeDocument bytes)
  ofDocument document

end Model

end UmlTyping
