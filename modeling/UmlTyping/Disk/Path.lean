/-!
# Paths

A path is text in which slashes separate segments. Slashes in a row count as one. A path that starts
with a slash is absolute, one that ends with it asks for a directory.
-/

namespace UmlTyping

/-- The way to a file or directory. -/
structure Path where
  /-- Whether the way starts at the root, and not at the working directory. -/
  isAbsolute : Bool
  /-- The names to follow, among them `.` for where one is and `..` for the directory above. -/
  segments : List String
  /-- Whether a slash follows the last name. -/
  isFolder : Bool := false
deriving DecidableEq, Repr

namespace Path

/-- The pieces of a text between its slashes. -/
def pieces : List Char → List (List Char)
  | [] => [[]]
  | c :: rest =>
    if c = '/' then [] :: pieces rest
    else
      match pieces rest with
      | [] => [[c]]
      | piece :: others => (c :: piece) :: others

/-- Reads a path. -/
def ofText (text : String) : Path where
  isAbsolute := text.toList.head? = some '/'
  segments := ((pieces text.toList).filter (· ≠ [])).map String.ofList
  isFolder := text.toList.getLast? = some '/'

/-- Whether the path leads nowhere but to the working directory. -/
def isEmpty (p : Path) : Bool := !p.isAbsolute && p.segments.isEmpty

/-- The segments without those that stay where they are, except for one that a relative path starts
with. -/
def proper (p : Path) : List String :=
  match p.isAbsolute, p.segments with
  | false, first :: rest => first :: rest.filter (· ≠ ".")
  | _, segments => segments.filter (· ≠ ".")

/-- The path without its last proper segment. -/
def parent? (p : Path) : Option Path :=
  if p.proper = [] then none else some { p with segments := p.proper.dropLast, isFolder := false }

theorem length_proper_le (p : Path) : p.proper.length ≤ p.segments.length := by
  unfold proper
  split
  · next hs =>
    rw [hs]
    exact Nat.succ_le_succ (List.length_filter_le _ _)
  · exact List.length_filter_le _ _

theorem length_parent_lt {p q : Path} (h : p.parent? = some q) :
    q.segments.length < p.segments.length := by
  unfold parent? at h
  split at h
  · simp at h
  · next hne =>
    cases h
    have := List.length_pos_iff.2 hne
    have := length_proper_le p
    simp only [List.length_dropLast]
    omega

/-- The path of a file in a directory. An absolute path stays as it is. -/
def join (directory file : String) : String :=
  if file.toList.head? = some '/' ∨ directory = "" then file
  else if directory.toList.getLast? = some '/' then directory ++ file
  else directory ++ "/" ++ file

end Path

end UmlTyping
