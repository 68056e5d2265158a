/-!
# Kinds of entries

The tag of an entry says what it defines. Three tags are known; case matters.
-/

namespace UmlTyping

/-- What an entry defines. -/
inductive Kind where
  /-- A choice of literals. -/
  | enumeration
  /-- A scalar. -/
  | primitive
  /-- A record of attributes. -/
  | record
deriving DecidableEq, Repr

namespace Kind

/-- The tag of entries of a kind. -/
def tag : Kind → String
  | enumeration => "uml:Enumeration"
  | primitive => "uml:PrimitiveType"
  | record => "uml:Class"

/-- The kind that a tag stands for. -/
def ofTag? (tag : String) : Option Kind :=
  [enumeration, primitive, record].find? (·.tag = tag)

theorem ofTag?_eq_some_iff {tag : String} {k : Kind} : ofTag? tag = some k ↔ tag = k.tag := by
  constructor
  · intro h
    have := List.find?_some (p := fun k : Kind => decide (k.tag = tag)) h
    exact (of_decide_eq_true this).symm
  · rintro rfl
    cases k <;> decide

/-- The name of a kind. -/
def name : Kind → String
  | enumeration => "Enumeration"
  | primitive => "Primitive"
  | record => "Class"

end Kind

end UmlTyping
