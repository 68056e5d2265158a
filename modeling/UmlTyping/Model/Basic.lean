import UmlTyping.Identifier
import UmlTyping.Table

/-!
# Models

A model files entries under the packages they stand in, and packages under their names. Two look-ups
lead to an entry: by package and identifier, and by identifier alone. The second trusts the
identifier to name the package, so an entry that stands elsewhere is not found by it.
-/

namespace UmlTyping

/-- An attribute of a record entry. -/
structure Attribute where
  /-- The name of the field. -/
  name : String
  /-- The identifier of the type of its values. -/
  typeRef : Identifier
  /-- The least number of values, as written. -/
  lower : String
  /-- The greatest number of values, as written. -/
  upper : String
deriving DecidableEq, Repr

/-- An entry of a package. What its tag means is not decided here. -/
structure Entry where
  /-- The identifier. -/
  id : Identifier
  /-- What kind of entry this is, as written. -/
  tag : String
  /-- The name, which other packages may use as well. -/
  name : String
  /-- The names of the literals of an enumeration, in their order. -/
  literals : List String
  /-- The attributes of a record, in their order. -/
  attributes : List Attribute
  /-- The identifier of the record that this one specialises. -/
  generalization : Option Identifier
deriving DecidableEq, Repr

/-- A named collection of entries. -/
structure Package where
  /-- The qualified name. -/
  name : String
  /-- The entries under their identifiers. -/
  entries : Table Entry
deriving DecidableEq

/-- The packages of a model under their names. -/
structure Model where
  /-- The packages. -/
  packages : Table Package
deriving DecidableEq

namespace Model

/-- The package with a qualified name. -/
def package? (m : Model) (name : String) : Option Package := m.packages.get? name

/-- The entry with an identifier, looked up in the package that the identifier encodes. -/
def find? (m : Model) (id : Identifier) : Option Entry := do
  let name ← id.qualifiedPackage?
  let package ← m.package? name
  package.entries.get? id

/-- Whether a package files an entry under an identifier. -/
def files (m : Model) (package : String) (id : Identifier) : Bool :=
  (m.package? package).any (·.entries.contains id)

/-- All entries, package by package. -/
def entries (m : Model) : List Entry :=
  m.packages.values.flatMap (·.entries.values)

/-- The identifiers under which entries are filed, package by package. -/
def ids (m : Model) : List Identifier :=
  m.packages.values.flatMap (·.entries.keys)

/-- The entries whose names start with a text. -/
def findByName (m : Model) (start : String) : List Entry :=
  m.entries.filter fun e => start.toList.isPrefixOf e.name.toList

theorem mem_ids_of_find?_eq_some {m : Model} {id : Identifier} {e : Entry}
    (h : m.find? id = some e) : id ∈ m.ids := by
  simp only [find?, bind, Option.bind_eq_some_iff] at h
  obtain ⟨name, -, package, hpackage, hentry⟩ := h
  refine List.mem_flatMap.2 ⟨package, ?_, Table.mem_keys_of_get?_eq_some hentry⟩
  exact List.mem_map.2 ⟨_, Table.get?_eq_some_iff.1 hpackage, rfl⟩

end Model

end UmlTyping
