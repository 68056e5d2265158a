import UmlTyping.Xmi.Element
import UmlTyping.Xmi.Field

/-!
# Reading a model document

An element that may hold many of a kind holds them in lists. A list is opened by the first element of
its kind and takes in all later ones of the very same name, qualifier included, whatever stands
between them. While the first list is read the rest of the content has to be sound, and text is no
longer passed over; what is not of that list is kept, and read afterwards. An element of a kind whose
list is read already, which then differs in its qualifier, repeats the list.
-/

namespace UmlTyping.Xmi

open Xml

/-! ## Children -/

/-- A member of one of the lists of an element. -/
inductive Member where
  | element (e : Element)
  | attribute (a : OwnedAttribute)
  | literal (name : Option String)
  | generalization (general : Option String)

/-- How an element is read, given the scopes in front of it; those behind it are given back. -/
abbrev Reading (α : Type) := Scopes → Except Fault (α × Scopes)

/-- An element inside another one, and how it is read if it belongs to a list. -/
structure Child where
  /-- Its tag. -/
  tag : Tag
  /-- What it holds. -/
  inner : Content
  /-- How it is read as a member of a list, if it is one. -/
  reading? : Option (Reading Member)

/-- Content in which it is known for each element whether it belongs to a list. -/
inductive Children where
  | finished
  | broken
  | declaration (rest : Children)
  | text (readable : Bool) (rest : Children)
  | element (child : Child) (rest : Children)

/-- Reads on while the list of the elements named `name` is open. Gives its members, the elements
that are kept, and the scopes in front of the end tag. -/
def readOpenList (name : String) (s : Scopes) :
    Children → Except Fault (List Member × List Child × Scopes)
  | .finished => .ok ([], [], s)
  | .broken => .error .illFormed
  | .declaration rest => readOpenList name s rest
  | .text .. => .error .illFormed
  | .element child rest => do
    if child.tag.bindsReserved then throw .illFormed
    match child.reading?.filter fun _ => child.tag.name = name with
    | some reading =>
      let (member, s) ← reading s
      let (members, kept, s) ← readOpenList name s rest
      pure (member :: members, kept, s)
    | none =>
      if !child.inner.isSound then throw .illFormed
      let (members, kept, s) ← readOpenList name s rest
      pure (members, child :: kept, s)

/-- Reads the elements that are kept, given the local names of the lists that are read. -/
def readKept (wanted : List String) (owner : Tag) (s : Scopes) (read : List String)
    (found : Fields) (kept : List Child) : Except Fault (Fields × List Member) :=
  match kept with
  | [] => .ok (found, [])
  | child :: rest => do
    let field := localPart child.tag.name
    match child.reading? with
    | some reading =>
      if field ∈ read then throw (.repeated field)
      let (first, _) ← reading s
      let alike := rest.filter (·.tag.name = child.tag.name)
      let others ← (alike.filterMap (·.reading?)).mapM (· s)
      let (found, later) ← readKept wanted owner s (field :: read) found
        (rest.filter (·.tag.name ≠ child.tag.name))
      pure (found, first :: others.map (·.1) ++ later)
    | none =>
      if field ∈ wanted then
        let (found, _) ← readField found s owner child.tag child.inner (readText child.inner)
        readKept wanted owner s read found rest
      else readKept wanted owner s read found rest
termination_by kept.length
decreasing_by
  · simp only [List.length_unattach, List.length_cons]
    exact Nat.lt_succ_of_le (Nat.le_trans (List.length_filter_le _ _) (by simp))
  · simp
  · simp

/-- Reads the children of an element with lists. Gives the members list by list, and the scopes in
front of the end tag, which `after` follows. -/
def readChildren (wanted : List String) (owner : Tag) (after : Content) (found : Fields)
    (s : Scopes) : Children → Except Fault (Fields × List Member × Scopes)
  | .finished => .ok (found, [], s)
  | .broken => .error .illFormed
  | .declaration rest => readChildren wanted owner after found s rest
  | .text readable rest =>
    if readable then readChildren wanted owner after found s rest else .error .illFormed
  | .element child rest => do
    if child.tag.bindsReserved then throw .illFormed
    let field := localPart child.tag.name
    match child.reading? with
    | some reading =>
      let (first, s) ← reading s
      let (others, kept, s) ← readOpenList child.tag.name s rest
      let (found, later) ← readKept wanted owner (s.settle after) [field] found kept
      pure (found, first :: others ++ later, s)
    | none =>
      if field ∈ wanted then
        let (found, s) ← readField found s owner child.tag child.inner (readText child.inner)
        readChildren wanted owner after found s rest
      else
        readChildren wanted owner after found (← skip s child.tag child.inner) rest

/-! ## Elements -/

/-- Reads an owned attribute. -/
def readOwnedAttribute (tag : Tag) (inner : Content) : Reading OwnedAttribute := fun s => do
  let parts := [("type", "@idref"), ("lowerValue", "@value"), ("upperValue", "@value")]
  let (fields, s) ← readFields ["@name"] parts s tag inner
  let owned : OwnedAttribute :=
    { name := fields.value? "@name"
      typeRef := fields.value? "type"
      lower := fields.value? "lowerValue"
      upper := fields.value? "upperValue" }
  pure (owned, s)

/-- Reads an element of which one attribute counts. -/
def readValue (key : String) (tag : Tag) (inner : Content) : Reading (Option String) := fun s => do
  let (fields, s) ← readFields [key] [] s tag inner
  pure (fields.value? key, s)

/-- The element with the given fields and the members of its lists. -/
def Element.ofMembers (fields : Fields) (members : List Member) : Element where
  id := fields.value? "@id"
  tag := fields.value? "@type"
  name := fields.value? "@name"
  elements := members.filterMap fun
    | .element e => some e
    | _ => none
  attributes := members.filterMap fun
    | .attribute a => some a
    | _ => none
  literals := members.filterMap fun
    | .literal name => some name
    | _ => none
  generalizations := members.filterMap fun
    | .generalization general => some general
    | _ => none

/-- Reads an element with lists, given its children and what follows it. -/
def readElement (wanted : List String) (tag : Tag) (inside : Children) (after : Content) :
    Reading Element := fun s => do
  let given ← readTag wanted tag
  let (fields, members, s) ← readChildren wanted tag after given (s.enter tag) inside
  pure (.ofMembers fields members, s.leave)

/-- A reading whose outcome is seen as a member of a list. -/
def Reading.asMember {α : Type} (reading : Reading α) (f : α → Member) : Reading Member :=
    fun s => do
  let (a, s) ← reading s
  pure (f a, s)

/-- The children that content holds. Inside of elements all lists are looked for, at the top that of
elements only. -/
def children (isTop : Bool) : Content → Children
  | .finished => .finished
  | .broken => .broken
  | .declaration rest => .declaration (children isTop rest)
  | .text content rest => .text content.isSome (children isTop rest)
  | .element tag inner rest =>
    let reading? : Option (Reading Member) :=
      match localPart tag.name, isTop with
      | "packagedElement", _ =>
        let wanted := ["@id", "@type", "@name"]
        some ((readElement wanted tag (children false inner) rest).asMember .element)
      | "ownedAttribute", false => some ((readOwnedAttribute tag inner).asMember .attribute)
      | "ownedLiteral", false => some ((readValue "@name" tag inner).asMember .literal)
      | "generalization", false => some ((readValue "@general" tag inner).asMember .generalization)
      | _, _ => none
    .element { tag, inner, reading? } (children isTop rest)

/-! ## Documents -/

/-- Reads the element that holds the model, given what follows it. -/
def readModel (tag : Tag) (inner after : Content) : Reading Document := fun s => do
  let (model, s) ← readElement ["@name"] tag (children true inner) after s
  pure ({ name := model.name, elements := model.elements }, s)

/-- Looks for the one model inside the outermost element. -/
def readRoot (model : Option Document) (s : Scopes) : Content → Except Fault Document
  | .finished =>
    match model with
    | some model => .ok model
    | none => .error (.missing "Model")
  | .broken => .error .illFormed
  | .declaration rest => readRoot model s rest
  | .text content rest =>
    if content.isSome then readRoot model s rest else .error .illFormed
  | .element tag inner rest => do
    if tag.bindsReserved then throw .illFormed
    if localPart tag.name = "Model" then
      if model.isSome then throw (.repeated "Model")
      let (model, s) ← readModel tag inner rest s
      readRoot (some model) s rest
    else readRoot model (← skip s tag inner) rest

/-- Reads the content of a document, in which nothing but declarations may stand before the outermost
element. -/
def Document.ofContent : Content → Except Fault Document
  | .declaration rest => ofContent rest
  | .element tag inner _ => do
    if tag.bindsReserved then throw .illFormed
    let _ ← readTag [] tag
    readRoot none (Scopes.enter {} tag) inner
  | _ => .error .illFormed

/-- Reads a document. -/
def Document.parse (document : String) : Except Fault Document :=
  ofContent (.ofDocument document)

end UmlTyping.Xmi
