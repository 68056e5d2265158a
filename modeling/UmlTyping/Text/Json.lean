/-!
# JSON text

Strings and objects of strings as JSON writes them, an object with one member per line. A string
escapes the quote, the backslash and the controls below U+0020, of which five have a short form; all
other characters stand as they are.
-/

namespace UmlTyping.Json

/-- A digit of a hexadecimal number, in lower case. -/
def hexDigit (n : Nat) : Char := Nat.digitChar n

/-- The form of a character in a string. -/
def escape (c : Char) : List Char :=
  if c = '"' then ['\\', '"']
  else if c = '\\' then ['\\', '\\']
  else if c = '\x08' then ['\\', 'b']
  else if c = '\t' then ['\\', 't']
  else if c = '\n' then ['\\', 'n']
  else if c = '\x0c' then ['\\', 'f']
  else if c = '\r' then ['\\', 'r']
  else if c.toNat < 0x20 then
    ['\\', 'u', '0', '0', hexDigit (c.toNat / 16), hexDigit (c.toNat % 16)]
  else [c]

/-- The string with a content. -/
def string (content : String) : String :=
  String.ofList ('"' :: content.toList.flatMap escape ++ ['"'])

/-- A member of an object. -/
def member (key value : String) : String :=
  "  " ++ string key ++ ": " ++ string value

/-- The object with members in their order. -/
def object (members : List (String × String)) : String :=
  if members = [] then "\x7b\x7d"
  else "\x7b\n" ++ ",\n".intercalate (members.map fun m => member m.1 m.2) ++ "\n\x7d"

end UmlTyping.Json
