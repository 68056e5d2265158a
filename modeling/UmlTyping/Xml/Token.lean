import UmlTyping.Xml.Reference
import UmlTyping.Xml.Tag

/-!
# Tokens

A document as a list of start tags, end tags, declarations and text. Comments and processing
instructions leave nothing behind. An element written as a single tag gives both its tags.

Pieces of text with nothing but comments and instructions between them make one text. Blanks at its
start and at its end are not part of it, those in character data excepted, and text of which nothing
is left counts for nothing.

Where markup is ill-formed the list ends, just as it does where the document ends. `Content` tells
apart what is complete by then from what is not.
-/

namespace UmlTyping.Xml

/-- A piece of text. -/
inductive TextPiece where
  /-- Text with references. -/
  | plain (text : List Char)
  /-- Character data, which has none. -/
  | literal (text : List Char)
deriving DecidableEq, Repr

namespace TextPiece

/-- Whether there is nothing but blanks in the piece. -/
def isBlank : TextPiece → Bool
  | plain text => text.all Xml.isBlank
  | literal _ => false

/-- The piece without the blanks at its start. -/
def trimStart : TextPiece → TextPiece
  | plain text => plain (text.dropWhile Xml.isBlank)
  | literal text => literal text

/-- The piece without the blanks at its end. -/
def trimEnd : TextPiece → TextPiece
  | plain text => plain (text.reverse.dropWhile Xml.isBlank).reverse
  | literal text => literal text

/-- The text of the piece, if all its references can be read. -/
def decode : TextPiece → Option String
  | plain text => Reference.decode text
  | literal text => some (String.ofList text)

end TextPiece

/-- A part of a document that says something about its elements. -/
inductive Token where
  | start (tag : Tag)
  | stop (name : String)
  /-- A declaration of a document type. -/
  | declaration
  /-- Text, if all its references can be read. -/
  | text (content : Option String)
deriving DecidableEq, Repr

namespace Token

/-! ## Finding the end of markup -/

/-- Splits before and after the first place where `mark` stands. What was read before is in `read`,
here and below with the last character first. -/
def cutAt (mark read : List Char) : List Char → Option (List Char × List Char)
  | [] => none
  | c :: rest =>
    if mark.isPrefixOf (c :: rest) then some (read.reverse, (c :: rest).drop mark.length)
    else cutAt mark (c :: read) rest

/-- Splits before and after the `>` that ends a tag. One inside quotes does not; `quote` is the mark
that was opened, if any. -/
def cutTag (read : List Char) : (quote : Option Char) → List Char → Option (List Char × List Char)
  | _, [] => none
  | some q, c :: rest => cutTag (c :: read) (if c = q then none else some q) rest
  | none, c :: rest =>
    if c = '>' then some (read.reverse, rest)
    else cutTag (c :: read) (if c = '"' ∨ c = '\'' then some c else none) rest

/-- Splits before and after the `>` that ends a declaration in which `depth` brackets are open. -/
def cutDeclaration (read : List Char) : (depth : Nat) → List Char → Option (List Char × List Char)
  | _, [] => none
  | depth, c :: rest =>
    if c = '<' then cutDeclaration (c :: read) (depth + 1) rest
    else if c ≠ '>' then cutDeclaration (c :: read) depth rest
    else if depth = 0 then some (read.reverse, rest)
    else cutDeclaration (c :: read) (depth - 1) rest

theorem cutAt_length {mark read cs inside after : List Char}
    (h : cutAt mark read cs = some (inside, after)) : after.length ≤ cs.length := by
  induction cs generalizing read with
  | nil => simp [cutAt] at h
  | cons c rest ih =>
    rw [cutAt] at h
    split at h
    · simp only [Option.some.injEq, Prod.mk.injEq] at h
      rw [← h.2, List.length_drop]
      omega
    · exact Nat.le_succ_of_le (ih h)

theorem cutTag_length {quote : Option Char} {read cs inside after : List Char}
    (h : cutTag read quote cs = some (inside, after)) : after.length ≤ cs.length := by
  induction cs generalizing quote read with
  | nil => simp [cutTag] at h
  | cons c rest ih =>
    cases quote with
    | some q => exact Nat.le_succ_of_le (ih h)
    | none =>
      rw [cutTag] at h
      split at h
      · simp only [Option.some.injEq, Prod.mk.injEq] at h
        simp [h.2]
      · exact Nat.le_succ_of_le (ih h)

theorem cutDeclaration_length {depth : Nat} {read cs inside after : List Char}
    (h : cutDeclaration read depth cs = some (inside, after)) : after.length ≤ cs.length := by
  induction cs generalizing depth read with
  | nil => simp [cutDeclaration] at h
  | cons c rest ih =>
    rw [cutDeclaration] at h
    split at h
    · exact Nat.le_succ_of_le (ih h)
    · split at h
      · exact Nat.le_succ_of_le (ih h)
      · split at h
        · simp only [Option.some.injEq, Prod.mk.injEq] at h
          simp [h.2]
        · exact Nat.le_succ_of_le (ih h)

/-! ## Markup -/

/-- A token, or a piece of text that has yet to be joined with its neighbours. -/
inductive Item where
  | token (t : Token)
  | piece (p : TextPiece)
deriving DecidableEq, Repr

/-- What a start tag stands for, given what is between its brackets. -/
def ofStartTag (inside : List Char) : List Item :=
  if inside.getLast? = some '/' then
    let tag := Tag.ofText inside.dropLast
    [.token (.start tag), .token (.stop tag.name)]
  else [.token (.start (.ofText inside))]

/-- The token of an end tag, given what stands between `</` and `>`. Blanks behind the name are not
part of it, unless there is nothing else. -/
def ofEndTag (inside : List Char) : Token :=
  let name := (inside.reverse.dropWhile isBlank).reverse
  .stop (String.ofList (if name = [] then inside else name))

/-- Whether the text of a declaration says that it is one of a document type and goes on. -/
def isDoctype (inside : List Char) : Bool :=
  (inside.take 7).map Char.toUpper = "DOCTYPE".toList && !(inside.drop 7).all isBlank

/-- What the markup that a `<` opens stands for, and what follows it, or `none` if it is
ill-formed. -/
def markup? (cs : List Char) : Option (List Item × List Char) :=
  match cs with
  | [] => none
  | '/' :: rest => (cutTag [] none rest).map fun p => ([.token (ofEndTag p.1)], p.2)
  | '!' :: '-' :: '-' :: rest => (cutAt "-->".toList [] rest).map fun p => ([], p.2)
  | '!' :: '[' :: 'C' :: 'D' :: 'A' :: 'T' :: 'A' :: '[' :: rest =>
    (cutAt "]]>".toList [] rest).map fun p => ([.piece (.literal p.1)], p.2)
  | '!' :: rest =>
    ((cutDeclaration [] 0 rest).filter (isDoctype ·.1)).map fun p => ([.token .declaration], p.2)
  | '?' :: '>' :: _ => none
  | '?' :: rest => (cutAt "?>".toList [] rest).map fun p => ([], p.2)
  | rest => (cutTag [] none rest).map fun p => (ofStartTag p.1, p.2)

theorem markup?_length {cs after : List Char} {items : List Item}
    (h : markup? cs = some (items, after)) : after.length ≤ cs.length := by
  unfold markup? at h
  split at h
  · simp at h
  · obtain ⟨_, hcut, heq⟩ := Option.map_eq_some_iff.1 h
    cases heq
    exact Nat.le_succ_of_le (cutTag_length hcut)
  · obtain ⟨_, hcut, heq⟩ := Option.map_eq_some_iff.1 h
    cases heq
    exact Nat.le_trans (cutAt_length hcut) (by simp; omega)
  · obtain ⟨_, hcut, heq⟩ := Option.map_eq_some_iff.1 h
    cases heq
    exact Nat.le_trans (cutAt_length hcut) (by simp; omega)
  · obtain ⟨_, hcut, heq⟩ := Option.map_eq_some_iff.1 h
    cases heq
    exact Nat.le_succ_of_le (cutDeclaration_length (Option.filter_eq_some_iff.1 hcut).1)
  · simp at h
  · obtain ⟨_, hcut, heq⟩ := Option.map_eq_some_iff.1 h
    cases heq
    exact Nat.le_succ_of_le (cutAt_length hcut)
  · obtain ⟨_, hcut, heq⟩ := Option.map_eq_some_iff.1 h
    cases heq
    exact cutTag_length hcut

/-- The items of a document after those in `done`, which holds the last one first. -/
def itemsFrom (done : List Item) (cs : List Char) : List Item :=
  match cs with
  | [] => done.reverse
  | c :: rest =>
    if c = '<' then
      match _h : markup? rest with
      | some (items, after) => itemsFrom (items.reverse ++ done) after
      | none => done.reverse
    else
      itemsFrom (.piece (.plain (c :: rest.takeWhile (· ≠ '<'))) :: done) (rest.dropWhile (· ≠ '<'))
termination_by cs.length
decreasing_by
  · have := markup?_length _h
    simp only [List.length_cons]
    omega
  · have := (List.dropWhile_sublist (· ≠ '<') (l := rest)).length_le
    simp only [List.length_cons]
    omega

/-! ## Text -/

/-- The text that pieces make up, if any, as a list of at most one token. -/
def ofPieces (pieces : List TextPiece) : List Token :=
  match pieces.dropWhile TextPiece.isBlank with
  | [] => []
  | first :: others =>
    let trimmed := (first.trimStart :: others).reverse.modifyHead TextPiece.trimEnd
    [.text ((trimmed.reverse.mapM TextPiece.decode).map String.join)]

/-- The tokens that items make up. The last pieces of text, the latest first, are in `pieces`, and
the tokens in front of them, the latest first, in `done`. -/
def joinFrom (done : List Token) (pieces : List TextPiece) : List Item → List Token
  | [] => (ofPieces pieces.reverse ++ done).reverse
  | .piece p :: rest => joinFrom done (p :: pieces) rest
  | .token t :: rest => joinFrom (t :: ofPieces pieces.reverse ++ done) [] rest

/-- The tokens of a document, up to its end or to the first markup that is ill-formed. A byte order
mark in front is not part of the document. -/
def scan (document : String) : List Token :=
  let items :=
    match document.toList with
    | '\uFEFF' :: rest => itemsFrom [] rest
    | cs => itemsFrom [] cs
  joinFrom [] [] items

end Token

end UmlTyping.Xml
