import UmlTyping.Definition.Source
import UmlTyping.Proofs.JsonReading

/-!
# Lines of source text

What is read line by line is put together from what the lines give (`readLines`). A line break parts
a text for such a reading, whatever stands on either side (`readLines_append`). So it is enough to
know the lines that definitions are written in: a class has a line for its head and one for each of
its fields (`readLines_classBody`), and a call that passes fields has a line that opens an object,
one for each member, and a line that closes it (`readLines_mapping`).
-/

namespace UmlTyping.Source

variable {α : Type} {read : List Char → List α} {name : String}
  {fields : List (String × TypeExpr)}

/-- Reads a text line by line. -/
def readLines (read : List Char → List α) (cs : List Char) : List α :=
  (cs.splitOn '\n').flatMap read

lemma readLines_append (read : List Char → List α) (cs rest : List Char) :
    readLines read (cs ++ '\n' :: rest) = readLines read cs ++ readLines read rest := by
  unfold readLines
  rw [List.splitOn_append_cons_self, List.flatMap_append]

lemma readLines_line {line : List Char} (h : '\n' ∉ line) : readLines read line = read line := by
  unfold readLines
  rw [List.splitOn_eq_singleton h, List.flatMap_singleton]

/-! ## Classes -/

/-- The lines of the fields, each behind a line break. -/
def fieldLines (fields : List (String × TypeExpr)) : List Char :=
  fields.flatMap fun f => '\n' :: (fieldLine f).toList

lemma fieldLines_cons (f : String × TypeExpr) (fields : List (String × TypeExpr)) :
    fieldLines (f :: fields) = '\n' :: ("\n".intercalate ((f :: fields).map fieldLine)).toList := by
  induction fields generalizing f with
  | nil => simp [fieldLines]
  | cons f' fields ih =>
    have hnext := ih f'
    simp only [fieldLines, List.flatMap_cons] at hnext ⊢
    simp [hnext]

/-- The line that a class starts with. -/
def openingLine (name bases : String) (fields : List (String × TypeExpr)) : List Char :=
  (classHead name bases).toList ++ if fields = [] then " ...".toList else []

lemma toList_classBody (name bases : String) (fields : List (String × TypeExpr)) :
    (classBody name bases fields).toList = openingLine name bases fields ++ fieldLines fields := by
  unfold classBody openingLine
  cases fields with
  | nil => simp [fieldLines]
  | cons f fields =>
    rw [if_neg (List.cons_ne_nil f fields), if_neg (List.cons_ne_nil f fields), fieldLines_cons]
    simp

lemma readLines_fieldLines (h : ∀ f ∈ fields, '\n' ∉ (fieldLine f).toList) (cs : List Char) :
    readLines read (cs ++ fieldLines fields) =
      readLines read cs ++ fields.flatMap fun f => read (fieldLine f).toList := by
  induction fields generalizing cs with
  | nil => simp [fieldLines]
  | cons f fields ih =>
    rw [List.forall_mem_cons] at h
    have hsplit : cs ++ fieldLines (f :: fields) =
        cs ++ '\n' :: ((fieldLine f).toList ++ fieldLines fields) := rfl
    rw [hsplit, readLines_append, ih h.2, readLines_line h.1, List.flatMap_cons]

/-- A class is read head first, then field by field. -/
theorem readLines_classBody {bases : String} (hname : '\n' ∉ name.toList)
    (hbases : '\n' ∉ bases.toList) (hlines : ∀ f ∈ fields, '\n' ∉ (fieldLine f).toList) :
    readLines read (classBody name bases fields).toList =
      read (openingLine name bases fields) ++ fields.flatMap fun f => read (fieldLine f).toList := by
  have hopening : '\n' ∉ openingLine name bases fields := by
    unfold openingLine
    cases fields <;> simp [classHead, hname, hbases]
  rw [toList_classBody, readLines_fieldLines hlines, readLines_line hopening]

/-! ## Calls -/

/-- The fields as source text shows them: their names with the texts of their types. -/
def shown (fields : List (String × TypeExpr)) : List (String × String) :=
  fields.map fun f => (f.1, f.2.text)

lemma toList_mapping_append (name : String) (fields : List (String × TypeExpr)) (rest : List Char) :
    (mapping name fields).toList ++ rest = name.toList ++ ' ' :: ("= TypedDict('".toList ++
      (name.toList ++ ("', ".toList ++ ((Json.object (shown fields)).toList ++
        (", total=False)".toList ++ rest))))) := by
  simp [mapping, shown]

lemma newline_not_mem_escape (c : Char) : '\n' ∉ Json.escape c := by
  have hcontrol : ∀ n < 0x20,
      '\n' ∉ ['\\', 'u', '0', '0', Json.hexDigit (n / 16), Json.hexDigit (n % 16)] := by
    decide
  unfold Json.escape
  split_ifs with _ _ _ _ hnewline _ _ hlow
  any_goals decide
  · exact hcontrol c.toNat hlow
  · rw [List.mem_singleton, eq_comm]
    exact hnewline

lemma newline_not_mem_memberText (m : String × String) : '\n' ∉ Json.memberText m := by
  simp [Json.memberText_eq, newline_not_mem_escape]

/-- If the lines of members give nothing, an object gives what the line that closes it does. -/
lemma readLines_members (hmember : ∀ m rest, read (Json.memberText m ++ rest) = [])
    (m : String × String) (members : List (String × String)) (rest : List Char) :
    readLines read (Json.memberText m ++ (Json.furtherMembers members ++ rest)) =
      readLines read ('\x7d' :: rest) := by
  induction members generalizing m with
  | nil =>
    have hline : readLines read (Json.memberText m) = [] := by
      rw [readLines_line (newline_not_mem_memberText m), ← List.append_nil (Json.memberText m),
        hmember]
    have hlast := readLines_append read (Json.memberText m) ('\x7d' :: rest)
    rw [hline] at hlast
    exact hlast
  | cons m' members ih =>
    -- the line of a member takes the comma behind it along
    have hcomma : '\n' ∉ Json.memberText m ++ [','] := by
      simp [newline_not_mem_memberText]
    have hnext := readLines_append read (Json.memberText m ++ [','])
      (Json.memberText m' ++ (Json.furtherMembers members ++ rest))
    rw [readLines_line hcomma, hmember, ih] at hnext
    rw [Json.furtherMembers_cons]
    simpa using hnext

/-- The line that a call starts with, if it passes some fields. -/
def callOpening (name : String) : List Char :=
  name.toList ++ ' ' :: '=' :: (" TypedDict('".toList ++ (name.toList ++ "', \x7b".toList))

lemma toList_mapping_cons (name : String) (f : String × TypeExpr)
    (fields : List (String × TypeExpr)) :
    (mapping name (f :: fields)).toList = callOpening name ++
      '\n' :: (Json.memberText (f.1, f.2.text) ++
        (Json.furtherMembers (shown fields) ++ ", total=False)".toList)) := by
  have htext := toList_mapping_append name (f :: fields) []
  have hshown : shown (f :: fields) = (f.1, f.2.text) :: shown fields := rfl
  rw [List.append_nil, List.append_nil, hshown, Json.toList_object] at htext
  rw [htext, callOpening]
  simp

/-- A call that passes some fields is read by the line that opens it and the one that closes it, if
the lines of members give nothing. -/
theorem readLines_mapping (hmember : ∀ m rest, read (Json.memberText m ++ rest) = [])
    (hname : '\n' ∉ name.toList) (h : fields ≠ []) :
    readLines read (mapping name fields).toList =
      read (callOpening name) ++ read "\x7d, total=False)".toList := by
  cases fields with
  | nil => exact absurd rfl h
  | cons f fields =>
    have hopening : '\n' ∉ callOpening name := by
      simp [callOpening, hname]
    have hclosing : '\n' ∉ '\x7d' :: ", total=False)".toList := by decide
    rw [toList_mapping_cons, readLines_append, readLines_line hopening, readLines_members hmember,
      readLines_line hclosing]
    rfl

end UmlTyping.Source
