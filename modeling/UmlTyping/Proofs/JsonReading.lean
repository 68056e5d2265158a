import Mathlib.Data.List.Basic
import UmlTyping.Text.Json
import UmlTyping.Xml.Reference

/-!
# Reading JSON text

A reader of JSON, which takes all that the notation allows: values of any kind inside each other,
blanks between the parts, and every escape sequence, so that a character beyond sixteen bits may also
be given by two of them. Objects are read with their members in order.

An object of strings is read as it was written, whatever stands behind it (`readValue_object`). So
no content of a string can be taken for the end of the string, and the text of an object shows its
members (`object_append_inj`).
-/

namespace UmlTyping.Json

open Xml.Reference (number?)

/-- A JSON value. A number is kept as it is written. -/
inductive Value where
  | null
  | bool (b : Bool)
  | number (text : String)
  | string (content : String)
  | array (items : List Value)
  | object (members : List (String × Value))

/-! ## Strings -/

/-- The characters that have a letter or a mark for their escape sequence. -/
def shortEscapes : List (Char × Char) :=
  [('"', '"'), ('\\', '\\'), ('/', '/'), ('b', '\x08'), ('f', '\x0c'), ('n', '\n'), ('r', '\r'),
   ('t', '\t')]

/-- Reads a number of sixteen bits, which has four digits. -/
def readUnit : List Char → Option (Nat × List Char)
  | a :: b :: c :: d :: cs => (number? 16 [a, b, c, d]).map fun n => (n, cs)
  | _ => none

/-- The character that two numbers stand for, each of which is that of none. -/
def joined? (n n' : Nat) : Option Char :=
  if 0xD800 ≤ n ∧ n < 0xDC00 ∧ 0xDC00 ≤ n' ∧ n' < 0xE000 then
    some (Char.ofNat (0x10000 + 0x400 * (n - 0xD800) + (n' - 0xDC00)))
  else none

/-- Reads an escape sequence, behind its backslash. If its number is that of no character, another
one has to follow. -/
def readEscape : List Char → Option (Char × List Char)
  | [] => none
  | 'u' :: cs => do
    let (n, cs) ← readUnit cs
    if n.isValidChar then pure (Char.ofNat n, cs)
    else
      match cs with
      | '\\' :: 'u' :: cs => do
        let (n', cs) ← readUnit cs
        (joined? n n').map fun c => (c, cs)
      | _ => none
  | c :: cs => (shortEscapes.lookup c).map fun d => (d, cs)

/-- Reads a character inside a string, or the quote that closes the string. -/
def readChar : List Char → Option (Option Char × List Char)
  | [] => none
  | c :: cs =>
    if c = '"' then some (none, cs)
    else if c = '\\' then (readEscape cs).map fun p => (some p.1, p.2)
    else if c.toNat < 0x20 then none
    else some (some c, cs)

theorem length_readUnit {cs rest : List Char} {n : Nat} (h : readUnit cs = some (n, rest)) :
    rest.length < cs.length := by
  unfold readUnit at h
  split at h
  · obtain ⟨k, -, heq⟩ := Option.map_eq_some_iff.1 h
    cases heq
    simp only [List.length_cons]
    omega
  · cases h

theorem length_readEscape {cs rest : List Char} {c : Char} (h : readEscape cs = some (c, rest)) :
    rest.length < cs.length := by
  unfold readEscape at h
  split at h
  · cases h
  next cs =>
    obtain ⟨⟨n, cs'⟩, hunit, h⟩ := Option.bind_eq_some_iff.1 h
    have hfirst := length_readUnit hunit
    dsimp only at h hfirst
    split at h
    · cases h
      simp only [List.length_cons]
      omega
    split at h
    next cs'' =>
      obtain ⟨⟨n', cs'''⟩, hunit', h⟩ := Option.bind_eq_some_iff.1 h
      have hsecond := length_readUnit hunit'
      obtain ⟨d, -, heq⟩ := Option.map_eq_some_iff.1 h
      cases heq
      simp only [List.length_cons] at hfirst hsecond ⊢
      omega
    · cases h
  next c' cs _ =>
    obtain ⟨d, -, heq⟩ := Option.map_eq_some_iff.1 h
    cases heq
    simp

theorem length_readChar {cs rest : List Char} {c : Option Char} (h : readChar cs = some (c, rest)) :
    rest.length < cs.length := by
  unfold readChar at h
  split at h
  · cases h
  next c' cs =>
    split at h
    · cases h
      simp
    split at h
    · obtain ⟨p, hescape, heq⟩ := Option.map_eq_some_iff.1 h
      cases heq
      have := length_readEscape hescape
      simp only [List.length_cons]
      omega
    split at h
    · cases h
    · cases h
      simp

/-- Reads a string, behind its opening quote. -/
def readString (cs : List Char) : Option (List Char × List Char) :=
  match _h : readChar cs with
  | some (none, rest) => some ([], rest)
  | some (some c, rest) => (readString rest).map fun p => (c :: p.1, p.2)
  | none => none
termination_by cs.length
decreasing_by exact length_readChar _h

/-! ## Values -/

/-- The characters that may stand between the parts of a value. -/
def isBlank (c : Char) : Bool := c = ' ' || c = '\t' || c = '\n' || c = '\r'

/-- The text from its first character that is no blank. -/
def skipBlanks (cs : List Char) : List Char := cs.dropWhile isBlank

/-- Whether a text can follow the digits of a number as its exponent. -/
def isExponent : List Char → Bool
  | [] => true
  | c :: cs =>
    let digits := match cs with
      | '+' :: digits => digits
      | '-' :: digits => digits
      | digits => digits
    (c = 'e' || c = 'E') && !digits.isEmpty && digits.all Char.isDigit

/-- Whether a text can follow the whole part of a number. -/
def isFraction : List Char → Bool
  | '.' :: cs => !(cs.takeWhile Char.isDigit).isEmpty && isExponent (cs.dropWhile Char.isDigit)
  | cs => isExponent cs

/-- Whether a text is a number. Its whole part starts with a zero only if that is all of it. -/
def isNumber (cs : List Char) : Bool :=
  let cs := if cs.head? = some '-' then cs.tail else cs
  let whole := cs.takeWhile Char.isDigit
  !whole.isEmpty && (whole = ['0'] || whole.head? ≠ some '0') &&
    isFraction (cs.dropWhile Char.isDigit)

/-- Reads a value that is not between marks. -/
def readWord (cs : List Char) : Option (Value × List Char) :=
  let inWord (c : Char) : Bool := c.isAlphanum || c = '+' || c = '-' || c = '.'
  let word := cs.takeWhile inWord
  let value? :=
    if word = ['n', 'u', 'l', 'l'] then some .null
    else if word = ['t', 'r', 'u', 'e'] then some (.bool true)
    else if word = ['f', 'a', 'l', 's', 'e'] then some (.bool false)
    else if isNumber word then some (.number (String.ofList word))
    else none
  value?.map fun v => (v, cs.dropWhile inWord)

/-- Reads at most so many items with commas between them, up to the mark that closes them. -/
def readItems {α : Type} (item : List Char → Option (α × List Char)) (close : Char) :
    Nat → List Char → Option (List α × List Char)
  | 0, _ => none
  | n + 1, cs => do
    let (x, cs) ← item (skipBlanks cs)
    match skipBlanks cs with
    | [] => none
    | c :: cs =>
      if c = close then some ([x], cs)
      else if c = ',' then (readItems item close n cs).map fun p => (x :: p.1, p.2)
      else none

/-- Reads items, of which there may be none. -/
def readList {α : Type} (item : List Char → Option (α × List Char)) (close : Char) (n : Nat)
    (cs : List Char) : Option (List α × List Char) :=
  match skipBlanks cs with
  | [] => none
  | c :: rest => if c = close then some ([], rest) else readItems item close n cs

/-- Reads a member of an object. -/
def readMember (value : List Char → Option (Value × List Char)) :
    List Char → Option ((String × Value) × List Char)
  | '"' :: cs => do
    let (key, cs) ← readString cs
    match skipBlanks cs with
    | ':' :: cs => (value (skipBlanks cs)).map fun p => ((String.ofList key, p.1), p.2)
    | _ => none
  | _ => none

/-- Reads a value that holds at most so many others inside each other and in one list. -/
def readValue : Nat → List Char → Option (Value × List Char)
  | 0, _ => none
  | _ + 1, '"' :: cs => (readString cs).map fun p => (.string (String.ofList p.1), p.2)
  | n + 1, '[' :: cs => (readList (readValue n) ']' n cs).map fun p => (.array p.1, p.2)
  | n + 1, '\x7b' :: cs =>
    (readList (readMember (readValue n)) '\x7d' n cs).map fun p => (.object p.1, p.2)
  | _ + 1, cs => readWord cs

/-- The value that is all of a text. There cannot be more values in a text than characters. -/
def read (text : String) : Option Value := do
  let (v, rest) ← readValue (text.length + 1) (skipBlanks text.toList)
  if skipBlanks rest = [] then some v else none

/-! ## Written strings -/

lemma readUnit_control {n : Nat} (h : n < 0x20) (rest : List Char) :
    readUnit ('0' :: '0' :: hexDigit (n / 16) :: hexDigit (n % 16) :: rest) = some (n, rest) := by
  have hall : ∀ n < 0x20, number? 16 ['0', '0', hexDigit (n / 16), hexDigit (n % 16)] = some n := by
    decide
  unfold readUnit
  dsimp only
  rw [hall n h]
  rfl

/-- A character is read from the form that it has in a string. -/
lemma readChar_escape (c : Char) (rest : List Char) :
    readChar (escape c ++ rest) = some (some c, rest) := by
  unfold escape
  split
  next h => subst h; rfl
  split
  next h => subst h; rfl
  split
  next h => subst h; rfl
  split
  next h => subst h; rfl
  split
  next h => subst h; rfl
  split
  next h => subst h; rfl
  split
  next h => subst h; rfl
  split
  next hcontrol =>
    have hvalid : c.toNat.isValidChar := c.valid
    have hescape : readEscape ('u' :: '0' :: '0' :: hexDigit (c.toNat / 16) ::
        hexDigit (c.toNat % 16) :: rest) = some (c, rest) := by
      simp [readEscape, readUnit_control hcontrol, hvalid]
    simp [readChar, hescape]
  next hquote hbackslash _ _ _ _ _ hcontrol =>
    simp [readChar, hquote, hbackslash, hcontrol]

lemma readString_eq {cs rest : List Char} {c : Option Char} (h : readChar cs = some (c, rest)) :
    readString cs = match c with
      | none => some ([], rest)
      | some c => (readString rest).map fun p => (c :: p.1, p.2) := by
  rw [readString]
  split
  next heq =>
    cases h.symm.trans heq
    rfl
  next heq =>
    cases h.symm.trans heq
    rfl
  next heq => cases h.symm.trans heq

/-- A string is read from its form, up to the quote that was put behind it. -/
theorem readString_escape (cs rest : List Char) :
    readString (cs.flatMap escape ++ '"' :: rest) = some (cs, rest) := by
  induction cs with
  | nil =>
    have hclose : readChar ('"' :: rest) = some (none, rest) := rfl
    exact readString_eq hclose
  | cons c cs ih =>
    have hchar := readChar_escape c (cs.flatMap escape ++ '"' :: rest)
    rw [List.flatMap_cons, List.append_assoc, readString_eq hchar]
    dsimp only
    rw [ih]
    rfl

/-! ## Written objects -/

variable {members members' : List (String × String)} {rest rest' : List Char} {n : Nat}

/-- The characters of a member. -/
def memberText (m : String × String) : List Char := (member m.1 m.2).toList

/-- What stands in an object behind its first member. -/
def furtherMembers (members : List (String × String)) : List Char :=
  members.flatMap (fun m => ',' :: '\n' :: memberText m) ++ ['\n', '\x7d']

/-- An object of strings as a value. -/
def ofStrings (members : List (String × String)) : Value :=
  .object (members.map fun m => (m.1, .string m.2))

lemma toList_string (s : String) : (string s).toList = '"' :: (s.toList.flatMap escape ++ ['"']) := by
  simp [string]

lemma memberText_eq (m : String × String) : memberText m = ' ' :: ' ' :: '"' ::
    (m.1.toList.flatMap escape ++ '"' :: ':' :: ' ' :: '"' ::
      (m.2.toList.flatMap escape ++ ['"'])) := by
  simp [memberText, member, toList_string]

theorem toList_object (m : String × String) (members : List (String × String)) :
    (object (m :: members)).toList =
      '\x7b' :: '\n' :: (memberText m ++ furtherMembers members) := by
  have hlist : ∀ m : String × String,
      (",\n".intercalate ((m :: members).map fun m => member m.1 m.2) ++ "\n\x7d").toList =
        memberText m ++ furtherMembers members := by
    induction members with
    | nil =>
      intro m
      simp [memberText, furtherMembers]
    | cons m' members ih =>
      intro m
      have hnext := ih m'
      simp only [furtherMembers, memberText, List.flatMap_cons] at hnext ⊢
      simpa using hnext
  have hopen : "\x7b\n".toList = ['\x7b', '\n'] := rfl
  unfold object
  rw [if_neg (List.cons_ne_nil m members), String.append_assoc, String.toList_append, hlist, hopen,
    List.cons_append, List.cons_append, List.nil_append]

lemma furtherMembers_cons (m : String × String) (members : List (String × String)) :
    furtherMembers (m :: members) = ',' :: '\n' :: (memberText m ++ furtherMembers members) := by
  simp [furtherMembers]

lemma length_furtherMembers (members : List (String × String)) :
    members.length < (furtherMembers members).length := by
  induction members with
  | nil => decide
  | cons m members ih =>
    rw [furtherMembers_cons]
    simp only [List.length_cons, List.length_append]
    omega

/-- The first mark of a member is its opening quote. -/
lemma skipBlanks_memberText (m : String × String) (rest : List Char) :
    skipBlanks ('\n' :: (memberText m ++ rest)) = '"' :: (m.1.toList.flatMap escape ++
      '"' :: ':' :: ' ' :: '"' :: (m.2.toList.flatMap escape ++ '"' :: rest)) := by
  rw [memberText_eq]
  simp [skipBlanks, isBlank]

/-- A member is read from its text, whatever follows it. -/
lemma readMember_memberText (m : String × String) (n : Nat) (rest : List Char) :
    readMember (readValue (n + 1)) (skipBlanks ('\n' :: (memberText m ++ rest))) =
      some ((m.1, .string m.2), rest) := by
  have hvalue : readValue (n + 1) ('"' :: (m.2.toList.flatMap escape ++ '"' :: rest)) =
      some (.string m.2, rest) := by
    rw [readValue, readString_escape]
    simp
  rw [skipBlanks_memberText, readMember, readString_escape]
  simp [skipBlanks, isBlank, hvalue]

/-- Members are read one after the other, up to the end of the object. -/
lemma readItems_members (m : String × String) (h : members.length < n) (k : Nat) :
    readItems (readMember (readValue (k + 1))) '\x7d' n
        ('\n' :: (memberText m ++ (furtherMembers members ++ rest))) =
      some ((m :: members).map (fun m => (m.1, .string m.2)), rest) := by
  induction members generalizing m n with
  | nil =>
    obtain ⟨n, rfl⟩ := Nat.exists_eq_succ_of_ne_zero (Nat.ne_zero_of_lt h)
    rw [readItems, readMember_memberText]
    rfl
  | cons m' members ih =>
    obtain ⟨n, rfl⟩ := Nat.exists_eq_succ_of_ne_zero (Nat.ne_zero_of_lt h)
    have hnext := ih m' (Nat.lt_of_succ_lt_succ h)
    rw [readItems, readMember_memberText, furtherMembers_cons]
    simp only [List.cons_append, List.append_assoc]
    -- behind the comma the reader is where it was, with one member less
    have hcomma : ∀ cs, skipBlanks (',' :: cs) = ',' :: cs := fun _ => rfl
    simp [hcomma, hnext]

/-- An object of strings is read as it was written, and what stands behind it is left. -/
theorem readValue_object (h : members.length + 1 < n) (rest : List Char) :
    readValue n ((object members).toList ++ rest) = some (ofStrings members, rest) := by
  obtain ⟨k, rfl⟩ : ∃ k, n = k + 2 := ⟨n - 2, by omega⟩
  cases members with
  | nil => rfl
  | cons m members =>
    have hlength : members.length < k + 1 := by
      rw [List.length_cons] at h
      omega
    rw [toList_object, List.cons_append, List.cons_append, List.append_assoc, readValue, readList,
      skipBlanks_memberText]
    dsimp only
    rw [if_neg (by decide), readItems_members m hlength k]
    rfl

lemma length_object (members : List (String × String)) :
    members.length < (object members).toList.length := by
  cases members with
  | nil => decide
  | cons m members =>
    have hfurther := length_furtherMembers members
    rw [toList_object]
    simp only [List.length_cons, List.length_append]
    omega

/-- An object of strings is all that is read of its text. -/
theorem read_object (members : List (String × String)) :
    read (object members) = some (ofStrings members) := by
  have hopen : skipBlanks (object members).toList = (object members).toList := by
    cases members with
    | nil => rfl
    | cons m members =>
      rw [toList_object]
      rfl
  -- an object has more characters than members, so the bound is high enough
  have hlength : members.length + 1 < (object members).length + 1 := by
    have hmembers := length_object members
    rw [String.length_toList] at hmembers
    omega
  have hvalue := readValue_object hlength []
  rw [List.append_nil] at hvalue
  unfold read
  rw [hopen, hvalue]
  rfl

lemma ofStrings_inj (h : ofStrings members = ofStrings members') : members = members' := by
  have hmap := Value.object.inj h
  refine List.map_injective_iff.2 ?_ hmap
  intro m m' hm
  simp only [Prod.mk.injEq, Value.string.injEq] at hm
  exact Prod.ext hm.1 hm.2

/-- The text of an object shows its members, and where it ends. -/
theorem object_append_inj
    (h : (object members).toList ++ rest = (object members').toList ++ rest') :
    members = members' ∧ rest = rest' := by
  -- with one bound for both objects, one text is read as both of them
  obtain ⟨n, hn, hn'⟩ : ∃ n, members.length + 1 < n ∧ members'.length + 1 < n :=
    ⟨members.length + members'.length + 2, by omega, by omega⟩
  have hread := readValue_object hn rest
  have hread' := readValue_object hn' rest'
  rw [h, hread'] at hread
  simp only [Option.some.injEq, Prod.mk.injEq] at hread
  exact ⟨(ofStrings_inj hread.1).symm, hread.2.symm⟩

end UmlTyping.Json
