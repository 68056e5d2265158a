/-!
# UTF-8

Bytes are read one at a time. Between two characters nothing is pending; inside one, the state holds
the bits read so far, how many continuation bytes are owed and the range that the next one may lie
in. The range is narrower than `80`–`BF` after `E0`, `ED`, `F0` and `F4`, which keeps out overlong
forms, surrogates and values above `10FFFF`. A byte that cannot continue ends the piece before it:
`Fault.invalid` tells how many bytes that piece has and where it starts.
-/

namespace UmlTyping.Utf8

/-- Why bytes are not UTF-8. -/
inductive Fault where
  /-- The `width` bytes from `index` on begin no character. -/
  | invalid (width index : Nat)
  /-- The bytes end inside the character that starts at `index`. -/
  | incomplete (index : Nat)
deriving DecidableEq, Repr

/-- A character of which some bytes are still owed. -/
structure Pending where
  /-- The bits read so far. -/
  bits : Nat
  /-- The number of bytes read so far. -/
  width : Nat
  /-- The number of bytes owed after the next one. -/
  owed : Nat
  /-- The least value that the next byte may have. -/
  low : Nat := 0x80
  /-- The greatest value that the next byte may have. -/
  high : Nat := 0xBF
deriving DecidableEq, Repr

/-- What a byte is, read as the first one of a character. -/
inductive First where
  | whole (c : Char)
  | begun (p : Pending)
  | invalid
deriving DecidableEq, Repr

/-- Reads the first byte of a character. -/
def first (byte : UInt8) : First :=
  let b := byte.toNat
  if b < 0x80 then .whole (Char.ofNat b)
  else if b < 0xC2 then .invalid
  else if b < 0xE0 then .begun { bits := b - 0xC0, width := 1, owed := 0 }
  else if b = 0xE0 then .begun { bits := 0, width := 1, owed := 1, low := 0xA0 }
  else if b = 0xED then .begun { bits := 0xD, width := 1, owed := 1, high := 0x9F }
  else if b < 0xF0 then .begun { bits := b - 0xE0, width := 1, owed := 1 }
  else if b = 0xF0 then .begun { bits := 0, width := 1, owed := 2, low := 0x90 }
  else if b < 0xF4 then .begun { bits := b - 0xF0, width := 1, owed := 2 }
  else if b = 0xF4 then .begun { bits := 4, width := 1, owed := 2, high := 0x8F }
  else .invalid

/-- Whether the byte may follow what is pending. -/
def Pending.accepts (p : Pending) (byte : UInt8) : Bool :=
  p.low ≤ byte.toNat && byte.toNat ≤ p.high

/-- The bits with those of a continuation byte added. -/
def Pending.extended (p : Pending) (byte : UInt8) : Nat :=
  p.bits * 64 + (byte.toNat - 0x80)

/-- What is pending after an accepted byte, or the character that it completes. -/
def Pending.next (p : Pending) (byte : UInt8) : First :=
  match p.owed with
  | 0 => .whole (Char.ofNat (p.extended byte))
  | owed + 1 => .begun { bits := p.extended byte, width := p.width + 1, owed }

/-- Decodes bytes, of which those before `index` are decoded into `done`. -/
def decodeFrom (done : String) (index : Nat) : Option Pending → List UInt8 → Except Fault String
  | none, [] => .ok done
  | some _, [] => .error (.incomplete index)
  | none, b :: rest =>
    match first b with
    | .whole c => decodeFrom (done.push c) (index + 1) none rest
    | .begun p => decodeFrom done index (some p) rest
    | .invalid => .error (.invalid 1 index)
  | some p, b :: rest =>
    if p.accepts b then
      match p.next b with
      | .whole c => decodeFrom (done.push c) (index + p.width + 1) none rest
      | .begun q => decodeFrom done index (some q) rest
      | .invalid => .error (.invalid p.width index)
    else .error (.invalid p.width index)

/-- Decodes UTF-8, or tells where the bytes first fail to be that. -/
def decode (bytes : ByteArray) : Except Fault String :=
  decodeFrom "" 0 none bytes.data.toList

/-- The character that stands for a piece which is not UTF-8. -/
def replacement : Char := '\uFFFD'

/-- Decodes bytes with every bad piece replaced, after those decoded into `done`. -/
def decodeLossyFrom (done : String) : Option Pending → List UInt8 → String
  | none, [] => done
  | some _, [] => done.push replacement
  | none, b :: rest =>
    match first b with
    | .whole c => decodeLossyFrom (done.push c) none rest
    | .begun p => decodeLossyFrom done (some p) rest
    | .invalid => decodeLossyFrom (done.push replacement) none rest
  | some p, b :: rest =>
    if p.accepts b then
      match p.next b with
      | .whole c => decodeLossyFrom (done.push c) none rest
      | .begun q => decodeLossyFrom done (some q) rest
      | .invalid => decodeLossyFrom (done.push replacement) none rest
    else
      -- the piece ends here, and the byte that ended it is read as a first one
      match first b with
      | .whole c => decodeLossyFrom ((done.push replacement).push c) none rest
      | .begun q => decodeLossyFrom (done.push replacement) (some q) rest
      | .invalid => decodeLossyFrom ((done.push replacement).push replacement) none rest

/-- Decodes UTF-8 with every piece that is none replaced by U+FFFD. -/
def decodeLossy (bytes : ByteArray) : String :=
  decodeLossyFrom "" none bytes.data.toList

end UmlTyping.Utf8
