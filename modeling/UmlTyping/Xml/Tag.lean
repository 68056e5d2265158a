/-!
# Tags

The inside of a start tag: a name, which runs to the first blank, and attributes. Nothing is asked of
the characters of a name, and nothing need stand between two attributes.

Names are written with an optional qualifier. The local part is what follows the first colon.

`Tag.findings` tells attributes and mistakes in the order in which they stand, reading on behind each
mistake, and counts a name that comes again as a mistake. `Tag.attributes` stops at the first mistake
but lets names come again.
-/

namespace UmlTyping.Xml

/-- The characters that may stand between the parts of markup. -/
def isBlank (c : Char) : Bool := c = ' ' || c = '\t' || c = '\n' || c = '\r'

/-- The parts of a name before and after its first colon, the first being `none` without a colon. -/
def splitName (name : String) : Option String × String :=
  let cs := name.toList
  match cs.dropWhile (· ≠ ':') with
  | _ :: after => (some (String.ofList (cs.takeWhile (· ≠ ':'))), String.ofList after)
  | [] => (none, name)

/-- A name without its qualifier. -/
def localPart (name : String) : String := (splitName name).2

/-- An attribute of a start tag. -/
structure TagAttribute where
  /-- The name as written, qualifier included. -/
  name : String
  /-- What stands between the quotes, its references not yet replaced. -/
  value : List Char
deriving DecidableEq, Repr

/-- The inside of a start tag. -/
structure Tag where
  /-- The name as written, qualifier included. -/
  name : String
  /-- What stands behind the name. -/
  body : List Char
deriving DecidableEq, Repr

namespace Tag

/-- Reads what stands in a start tag between its brackets, a slash at its end left out. -/
def ofText (text : List Char) : Tag where
  name := String.ofList (text.takeWhile (!isBlank ·))
  body := text.dropWhile (!isBlank ·)

/-- Where the reading of attributes stands. Texts being read are held last character first. -/
inductive Place where
  /-- Before an attribute or the end. -/
  | between
  /-- Inside a name, or, if that `isOver`, where the equals sign is due. -/
  | name (read : List Char) (isOver : Bool)
  /-- Behind the equals sign, where the opening quote is due. -/
  | equals (name : List Char)
  /-- Inside a value, which `quote` will end. -/
  | value (name : List Char) (quote : Char) (read : List Char)
  /-- Behind a mistake that the next blank will end. -/
  | astray
deriving DecidableEq, Repr

/-- Finds attributes from some place on, and `none` for each mistake. The names read before are in
`names`; with `distinct`, one of them that comes again is a mistake. -/
def findFrom (distinct : Bool) (names : List (List Char)) :
    Place → List Char → List (Option TagAttribute)
  | .between, [] => []
  | .astray, [] => []
  | _, [] => [none]
  | .between, c :: rest =>
    findFrom distinct names (if isBlank c then .between else .name [c] false) rest
  | .astray, c :: rest => findFrom distinct names (if isBlank c then .between else .astray) rest
  | .name read isOver, c :: rest =>
    if c = '=' then
      if distinct ∧ read ∈ names then none :: findFrom distinct names .astray rest
      else findFrom distinct (read :: names) (.equals read) rest
    else if isBlank c then findFrom distinct names (.name read true) rest
    else if isOver then none :: findFrom distinct names (.name [c] false) rest
    else findFrom distinct names (.name (c :: read) false) rest
  | .equals name, c :: rest =>
    if c = '"' ∨ c = '\'' then findFrom distinct names (.value name c []) rest
    else if isBlank c then findFrom distinct names (.equals name) rest
    else none :: findFrom distinct names .astray rest
  | .value name quote read, c :: rest =>
    if c = quote then
      some ⟨String.ofList name.reverse, read.reverse⟩ :: findFrom distinct names .between rest
    else findFrom distinct names (.value name quote (c :: read)) rest

/-- The attributes of the tag, no name twice, with `none` at each mistake. -/
def findings (tag : Tag) : List (Option TagAttribute) :=
  findFrom true [] .between tag.body

/-- The attributes up to the first that is ill-formed. -/
def attributes (tag : Tag) : List TagAttribute :=
  ((findFrom false [] .between tag.body).takeWhile Option.isSome).filterMap id

end Tag

end UmlTyping.Xml
