import UmlTyping.Text.Printable

/-!
# Quoted text

Text between double quotes, as messages show it. A quote and a backslash get a backslash in front;
tab, line feed, carriage return and the null character have short forms. Characters that do not print
by themselves are given by their number in hexadecimal digits. All others stand as they are.
-/

namespace UmlTyping.Quoted

/-- The hexadecimal digits of a number, without leading zeros. -/
def hexDigits (n : Nat) : List Char := Nat.toDigits 16 n

/-- The form of a character between quotes. -/
def escape (c : Char) : List Char :=
  if c = '"' ∨ c = '\\' then ['\\', c]
  else if c = '\t' then ['\\', 't']
  else if c = '\n' then ['\\', 'n']
  else if c = '\r' then ['\\', 'r']
  else if c = '\x00' then ['\\', '0']
  else if isPrintable c then [c]
  else '\\' :: 'u' :: '\x7b' :: hexDigits c.toNat ++ ['\x7d']

/-- Text between quotes. -/
def quote (text : String) : String :=
  String.ofList ('"' :: text.toList.flatMap escape ++ ['"'])

/-- Text that may be missing. -/
def quote? : Option String → String
  | some text => "Some(" ++ quote text ++ ")"
  | none => "None"

/-- Texts between braces, separated by commas. -/
def quoteSet (texts : List String) : String :=
  "\x7b" ++ ", ".intercalate (texts.map quote) ++ "\x7d"

end UmlTyping.Quoted
