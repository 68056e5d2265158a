import UmlTyping.Disk.Path

/-!
# Disks

A disk holds directories and files at places. Finding the place of a path follows its segments from
the working directory or from the root; each of them but the last has to be a directory that exists.
There are no links on such a disk, symbolic or hard: a file is found at one place only, and what is
proved of writing speaks of disks without links.

Every operation either gives the disk that it leaves behind or says why it cannot be done, in which
case nothing has changed. Only the making of several directories at once can fail half way.
-/

namespace UmlTyping

namespace Disk

/-- Why an operation on a disk cannot be done. -/
inductive Fault where
  | notFound
  | alreadyExists
  | notDirectory
  | isDirectory
  | nameTooLong
  /-- The path holds a null character. -/
  | nullCharacter
  /-- Another cause, with its number and wording. -/
  | other (code : Nat) (text : String)
deriving DecidableEq, Repr

/-- The wording of a fault. -/
def Fault.message : Fault → String
  | notFound => "No such file or directory (os error 2)"
  | alreadyExists => "File exists (os error 17)"
  | notDirectory => "Not a directory (os error 20)"
  | isDirectory => "Is a directory (os error 21)"
  | nameTooLong => "File name too long (os error 36)"
  | nullCharacter => "file name contained an unexpected NUL byte"
  | other code text => s!"{text} (os error {code})"

/-- The names from a file or directory up to the root, which has none. -/
abbrev Place := List String

/-- What stands at a place. -/
inductive Node where
  | directory
  | file (content : ByteArray)

end Disk

/-- Directories and files at places, and the working directory. -/
structure Disk where
  /-- What stands at the places in use. The root is not listed. -/
  nodes : List (Disk.Place × Disk.Node)
  /-- The place from which relative paths start. -/
  here : Disk.Place

namespace Disk

/-- The disk that holds nothing but a working directory. -/
def empty (here : Place) : Disk where
  nodes := (List.range here.length).map fun n => (here.drop n, .directory)
  here := here

/-- What stands at a place. -/
def node? (d : Disk) (place : Place) : Option Node :=
  if place = [] then some .directory else d.nodes.lookup place

/-- Whether a directory stands at a place. -/
def isDirectoryAt (d : Disk) (place : Place) : Bool :=
  match d.node? place with
  | some .directory => true
  | _ => false

/-- The disk with something put at a place. -/
def put (d : Disk) (place : Place) (node : Node) : Disk :=
  { d with nodes := (place, node) :: d.nodes.filter (·.1 ≠ place) }

/-- The longest name that a directory takes, in bytes. -/
def longestName : Nat := 255

/-- The length that a path must stay below, in bytes. -/
def longestPath : Nat := 4096

/-- The place that a segment leads to from another place, which has to be a directory. -/
def step (d : Disk) (place : Place) (segment : String) : Except Fault Place :=
  if !d.isDirectoryAt place then .error .notDirectory
  else if segment = "." then .ok place
  else if segment = ".." then .ok place.tail
  else if segment.utf8ByteSize > longestName then .error .nameTooLong
  else .ok (segment :: place)

/-- The place that segments lead to, of which the last need not exist. -/
def follow (d : Disk) (place : Place) : List String → Except Fault Place
  | [] => .ok place
  | segment :: rest => do
    let next ← d.step place segment
    if rest ≠ [] ∧ (d.node? next).isNone then throw .notFound
    d.follow next rest

/-- The place that a path leads to. -/
def locate (d : Disk) (p : Path) : Except Fault Place :=
  d.follow (if p.isAbsolute then [] else d.here) p.segments

/-- Reads the text of a path that an operation is given. -/
def pathOf (text : String) : Except Fault Path :=
  if '\x00' ∈ text.toList then .error .nullCharacter
  else if text = "" then .error .notFound
  else if text.utf8ByteSize ≥ longestPath then .error .nameTooLong
  else .ok (.ofText text)

/-- Whether a path leads to a directory. -/
def isDirectory (d : Disk) (p : Path) : Bool :=
  match d.locate p with
  | .ok place => d.isDirectoryAt place
  | .error _ => false

/-- The content of a file. -/
def read (d : Disk) (path : String) : Except Fault ByteArray := do
  let p ← pathOf path
  match d.node? (← d.locate p) with
  | none => throw .notFound
  | some .directory => throw .isDirectory
  | some (.file content) => if p.isFolder then throw .notDirectory else pure content

/-- Writes a file, instead of what it held if there is one. -/
def write (d : Disk) (path : String) (content : ByteArray) : Except Fault Disk := do
  let p ← pathOf path
  let place ← d.locate p
  if p.isFolder ∨ d.isDirectoryAt place then throw .isDirectory
  pure (d.put place (.file content))

/-- Makes a directory in one that exists. -/
def makeDirectory (d : Disk) (p : Path) : Except Fault Disk := do
  let place ← d.locate p
  if (d.node? place).isSome then throw .alreadyExists
  pure (d.put place .directory)

/-- Makes a directory and those above it, as far as they are missing. What was made stays if the
rest cannot be. -/
def makePath (d : Disk) (p : Path) : Disk × Except Fault Unit :=
  if p.isEmpty then (d, .ok ())
  else
    match d.makeDirectory p with
    | .ok d => (d, .ok ())
    | .error .notFound =>
      match _h : p.parent? with
      | none => (d, .error .notFound)
      | some above =>
        match d.makePath above with
        | (d, .error fault) => (d, .error fault)
        | (d, .ok ()) =>
          match d.makeDirectory p with
          | .ok d => (d, .ok ())
          | .error fault => (d, if d.isDirectory p then .ok () else .error fault)
    | .error fault => (d, if d.isDirectory p then .ok () else .error fault)
termination_by p.segments.length
decreasing_by exact Path.length_parent_lt _h

/-- Makes a directory and those above it, given the text of its path. The empty path is where one
is, and there is nothing to make. -/
def makeDirectories (d : Disk) (path : String) : Disk × Except Fault Unit :=
  if path = "" then (d, .ok ())
  else
    match pathOf path with
    | .ok p => d.makePath p
    | .error fault => (d, .error fault)

/-- Everything below a directory, by its path from there, with the content of files. -/
def listing (d : Disk) (path : String) : List (String × Option ByteArray) :=
  match pathOf path >>= d.locate with
  | .error _ => []
  | .ok top =>
    d.nodes.filterMap fun (place, node) =>
      if top.length < place.length ∧ top.isSuffixOf place then
        let name := "/".intercalate (place.take (place.length - top.length)).reverse
        match node with
        | .directory => some (name ++ "/", none)
        | .file content => some (name, some content)
      else none

end Disk

end UmlTyping
