import UmlTyping.Xml.Binding
import UmlTyping.Xml.Token

/-!
# Content

What stands inside an element, read from front to back: text, declarations and elements, and last
either the end tag or the place where the document stops making sense. `Content.ofDocument` builds the
content of the document as a whole. An end tag has to repeat the name of the element that it ends.
What follows the first element of all is left out, whatever it is.

`Content` is a tree, so everything that reads a document recurses on it. That a document breaks off
shows in the tree at the place where a reader would come upon it.
-/

namespace UmlTyping.Xml

/-- What stands inside an element from some point on. -/
inductive Content where
  /-- The end tag. -/
  | finished
  /-- The end of the document, or a place where it is ill-formed. -/
  | broken
  /-- A declaration, and what follows it. -/
  | declaration (rest : Content)
  /-- Text, if its references can be read, and what follows it. -/
  | text (content : Option String) (rest : Content)
  /-- An element with its content, and what follows it. -/
  | element (tag : Tag) (inner rest : Content)
deriving DecidableEq, Repr

namespace Content

/-- The tokens up to the end of the first element, or to the first end tag that ends another element
than the innermost. The names of the elements that are open are in `names`. -/
def nested (names : List String) : List Token → List Token
  | [] => []
  | .start tag :: rest => .start tag :: nested (tag.name :: names) rest
  | .declaration :: rest => .declaration :: nested names rest
  | .text content :: rest => .text content :: nested names rest
  | .stop name :: rest =>
    match names with
    | [] => []
    | inner :: outer =>
      if name ≠ inner then []
      else .stop name :: if outer = [] then [] else nested outer rest

/-- Puts a token before what follows it. The list holds the content that follows at the level of the
token, then that which follows its parent, and so on; where it ends, nothing follows. -/
def push (token : Token) (levels : List Content) : List Content :=
  match token, levels with
  | .stop _, levels => .finished :: levels
  | .declaration, levels => .declaration (levels.headD .broken) :: levels.tail
  | .text content, levels => .text content (levels.headD .broken) :: levels.tail
  | .start tag, levels =>
    .element tag (levels.headD .broken) (levels.tail.headD .broken) :: levels.tail.tail

/-- The content that tokens make up. -/
def ofTokens (tokens : List Token) : Content :=
  ((nested [] tokens).foldr push []).headD .broken

/-- The content of a document, of which only the first element is complete. -/
def ofDocument (document : String) : Content :=
  ofTokens (Token.scan document)

/-- Whether the content goes on to its end tag, and all elements inside do to theirs. -/
def isComplete : Content → Bool
  | finished => true
  | broken => false
  | declaration rest => rest.isComplete
  | text _ rest => rest.isComplete
  | element _ inner rest => inner.isComplete && rest.isComplete

/-- Whether the content is complete, and at every depth its text is readable and its tags make no
reserved binding. -/
def isSound : Content → Bool
  | finished => true
  | broken => false
  | declaration rest => rest.isSound
  | text content rest => content.isSome && rest.isSound
  | element tag inner rest => !tag.bindsReserved && inner.isSound && rest.isSound

/-- Whether an element with this content can be skipped: the content must be complete, and a tag that
comes first in it must make no reserved binding. Nothing else in it is looked at. -/
def isSkippable (content : Content) : Bool :=
  content.isComplete &&
    match content with
    | element tag _ _ => !tag.bindsReserved
    | _ => true

/-- Whether nothing but declarations stand before the end tag. -/
def isOver : Content → Bool
  | finished => true
  | declaration rest => rest.isOver
  | _ => false

/-- The text in an element that holds nothing else, if all of it is in one place and can be read. No
text at all is empty text. -/
def value? : Content → Option String
  | finished => some ""
  | declaration rest => rest.value?
  | text content rest => if rest.isOver then content else none
  | _ => none

end Content

end UmlTyping.Xml
