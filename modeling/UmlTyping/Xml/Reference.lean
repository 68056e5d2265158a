/-!
# Character references

In markup an ampersand starts a reference, which a semicolon ends: one of five names, or the number
of a character in decimal or, after `x`, in hexadecimal digits. `Reference.decode` replaces every
reference of a text by its character and fails where one cannot be read. No entity can be declared,
so no other name stands for anything.
-/

namespace UmlTyping.Xml.Reference

/-- The value of a digit, in bases up to sixteen. -/
def digit? (base : Nat) (c : Char) : Option Nat :=
  let value? :=
    if '0' ≤ c ∧ c ≤ '9' then some (c.toNat - '0'.toNat)
    else if 'a' ≤ c ∧ c ≤ 'f' then some (c.toNat - 'a'.toNat + 10)
    else if 'A' ≤ c ∧ c ≤ 'F' then some (c.toNat - 'A'.toNat + 10)
    else none
  value?.filter (· < base)

/-- The number that digits denote, leading zeros included. No digit at all denotes none. -/
def number? (base : Nat) : List Char → Option Nat
  | [] => none
  | digits => digits.foldlM (fun n c => (digit? base c).map (base * n + ·)) 0

/-- The character with a number, unless the number is zero or that of no character. -/
def ofNumber? (n : Nat) : Option Char :=
  if n ≠ 0 ∧ n.isValidChar then some (Char.ofNat n) else none

/-- The character that a reference stands for, given what is between its `&` and its `;`. -/
def char? : List Char → Option Char
  | '#' :: 'x' :: digits => number? 16 digits >>= ofNumber?
  | '#' :: digits => number? 10 digits >>= ofNumber?
  | ['l', 't'] => some '<'
  | ['g', 't'] => some '>'
  | ['a', 'm', 'p'] => some '&'
  | ['q', 'u', 'o', 't'] => some '"'
  | ['a', 'p', 'o', 's'] => some '\''
  | _ => none

/-- Decodes text after what is `done`. Inside a reference, `body` holds what was read of it, last
character first. -/
def decodeFrom (done : String) : (body : Option (List Char)) → List Char → Option String
  | none, [] => some done
  | some _, [] => none
  | none, c :: rest =>
    if c = '&' then decodeFrom done (some []) rest else decodeFrom (done.push c) none rest
  | some body, c :: rest =>
    if c = '&' then none
    else if c = ';' then
      match char? body.reverse with
      | some r => decodeFrom (done.push r) none rest
      | none => none
    else decodeFrom done (some (c :: body)) rest

/-- The text with every reference replaced, or `none` if one of them cannot be read. -/
def decode (text : List Char) : Option String :=
  decodeFrom "" none text

end UmlTyping.Xml.Reference
