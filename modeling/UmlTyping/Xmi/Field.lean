import UmlTyping.Xml.Scopes

/-!
# Fields

What is read of an element are fields, each of which has one text as its value or none. The fields
whose names start with `@` are attributes. One of these may also be given by an element inside that
has the name of the field, `@` included, and holds nothing but the value. Other fields are parts:
elements inside of which one attribute counts.

Elements and attributes are known by the local part of their names, and those that mean nothing are
passed over with all they contain. The first problem, read from front to back, decides the outcome.
-/

namespace UmlTyping.Xmi

open Xml

/-- Why a document cannot be read. -/
inductive Fault where
  /-- It is not well-formed. -/
  | illFormed
  /-- A field is not there. -/
  | missing (field : String)
  /-- A field is there more than once. -/
  | repeated (field : String)
deriving DecidableEq, Repr

/-- The fields that were read, with their values. -/
abbrev Fields := List (String × Option String)

/-- The value of a field, if it was read and has one. -/
def Fields.value? (fields : Fields) (name : String) : Option String :=
  (fields.lookup name).join

/-- Reads attributes of which those in `wanted` count, behind those in `found`. -/
def readAttributes (wanted : List String) (found : Fields) :
    List (Option TagAttribute) → Except Fault Fields
  | [] => .ok found
  | none :: _ => .error .illFormed
  | some a :: rest =>
    let field := "@" ++ localPart a.name
    if a.isBinding ∨ field ∉ wanted then readAttributes wanted found rest
    else if (found.lookup field).isSome then .error (.repeated field)
    else
      match Reference.decode a.value with
      | none => .error .illFormed
      | some value => readAttributes wanted ((field, some value) :: found) rest

/-- Reads the attributes of a tag of which those in `wanted` count. -/
def readTag (wanted : List String) (tag : Tag) : Except Fault Fields :=
  readAttributes wanted [] tag.findings

/-- Skips an element, and gives the scopes behind it. -/
def skip (s : Scopes) (tag : Tag) (inner : Content) : Except Fault Scopes :=
  if inner.isSkippable then .ok (s.skip tag inner) else .error .illFormed

/-- Reads an element that its own tag or that of the element around it may mark as absent. Otherwise
`read` gives its value and the scopes in front of its end tag. -/
def readOptional (s : Scopes) (owner tag : Tag) (inner : Content)
    (read : Scopes → Except Fault (Option String × Scopes)) :
    Except Fault (Option String × Scopes) := do
  let inForce := (s.enter tag).ahead inner
  if inForce.marksAbsent owner || inForce.marksAbsent tag then
    pure (none, ← skip s tag inner)
  else
    let (value, s) ← read (s.enter tag)
    pure (value, s.leave)

/-- Reads the content of an element that holds nothing but a value. -/
def readText (inner : Content) (s : Scopes) : Except Fault (Option String × Scopes) :=
  match inner.value? with
  | some value => .ok (some value, s)
  | none => .error .illFormed

/-- Reads a field that an element gives, behind those in `found`. -/
def readField (found : Fields) (s : Scopes) (owner tag : Tag) (inner : Content)
    (read : Scopes → Except Fault (Option String × Scopes)) : Except Fault (Fields × Scopes) := do
  let field := localPart tag.name
  if (found.lookup field).isSome then throw (.repeated field)
  let (value, s) ← readOptional s owner tag inner read
  pure ((field, value) :: found, s)

/-- Reads the content of an element in which attributes and parts count, behind what is in `found`.
The parts are listed with the attribute that counts of each. -/
def readContent (wanted : List String) (parts : List (String × String)) (owner : Tag)
    (found : Fields) (s : Scopes) : Content → Except Fault (Fields × Scopes)
  | .finished => .ok (found, s)
  | .broken => .error .illFormed
  | .declaration rest => readContent wanted parts owner found s rest
  | .text content rest =>
    if content.isSome then readContent wanted parts owner found s rest else .error .illFormed
  | .element tag inner rest => do
    if tag.bindsReserved then throw .illFormed
    let field := localPart tag.name
    if field ∈ wanted then
      let (found, s) ← readField found s owner tag inner (readText inner)
      readContent wanted parts owner found s rest
    else
      match parts.lookup field with
      | some key =>
        let (found, s) ← readField found s owner tag inner fun s => do
          let given ← readTag [key] tag
          let (given, s) ← readContent [key] [] tag given s inner
          pure (given.value? key, s)
        readContent wanted parts owner found s rest
      | none => readContent wanted parts owner found (← skip s tag inner) rest

/-- Reads an element in which attributes and parts count, and gives the scopes behind it. -/
def readFields (wanted : List String) (parts : List (String × String)) (s : Scopes) (tag : Tag)
    (inner : Content) : Except Fault (Fields × Scopes) := do
  let given ← readTag wanted tag
  let (found, s) ← readContent wanted parts tag given (s.enter tag) inner
  pure (found, s.leave)

end UmlTyping.Xmi
