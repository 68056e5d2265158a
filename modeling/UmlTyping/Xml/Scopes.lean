import UmlTyping.Xml.Content

/-!
# Scopes

The bindings in force while a document is read from front to back. They are kept level by level, one
level for each start tag that was read and whose end tag was not. What is looked at is always one
token behind what was read: at a start tag, the bindings of a tag that comes first inside are already
in force.

Of an element that is skipped no more is read than its start tag and what comes first inside. Unless
that is its end tag, the levels of the tags that were read stay, and the next end tags that are read
drop them in place of their own.

Content may also be read a second time, after all of it was read a first time. Then nothing changes
any more: the scopes are `settled`, and those in force are the ones that the first time ended with.
-/

namespace UmlTyping.Xml

/-- The bindings in force. -/
structure Scopes where
  /-- The bindings level by level, the innermost first. -/
  levels : List (List Binding) := []
  /-- Whether what is read was read before. -/
  settled : Bool := false
deriving DecidableEq, Repr

namespace Scopes

/-- Those behind a start tag. -/
def enter (s : Scopes) (tag : Tag) : Scopes :=
  if s.settled then s else { s with levels := tag.bindings :: s.levels }

/-- Those behind the end tag of an element, given those in front of it. -/
def leave (s : Scopes) : Scopes :=
  if s.settled then s else { s with levels := s.levels.tail }

/-- Those in force while one looks at what is in front of some content. -/
def ahead (s : Scopes) : Content → Scopes
  | .element tag _ _ => s.enter tag
  | _ => s

/-- Those behind an element that is skipped. -/
def skip (s : Scopes) (tag : Tag) : Content → Scopes
  | .finished => s
  | inner => (s.enter tag).ahead inner

/-- Those in force when content is read again, given those in front of its end tag and what follows
that. -/
def settle (s : Scopes) (after : Content) : Scopes :=
  { s.leave.ahead after with settled := true }

/-- The namespace that a qualifier is bound to. Of two bindings in one tag the later one holds. -/
def bound? (s : Scopes) (qualifier : String) : Option (List Char) :=
  (s.levels.findSome? fun level => level.reverse.find? (·.qualifier = qualifier)).map (·.value)

/-- Whether an attribute of the tag, bound to the instance namespace, marks an element as absent. -/
def marksAbsent (s : Scopes) (tag : Tag) : Bool :=
  (tag.findings.filterMap id).any fun a =>
    match splitName a.name with
    | (some qualifier, "nil") =>
      s.bound? qualifier = some instanceNamespace.toList &&
        (a.value = "true".toList || a.value = "1".toList)
    | _ => false

end Scopes

end UmlTyping.Xml
