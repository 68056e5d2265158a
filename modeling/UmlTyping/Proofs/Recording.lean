import UmlTyping.Proofs.Lines
import UmlTyping.Proofs.Quotation
import UmlTyping.Proofs.Spelling

/-!
# Records in source text

A record is written as a class that lists its fields, one on each line, or as a call of `TypedDict`
that takes them as an object. Either way the fields can be read off the source text in their order,
each with the text of its type: from a call by reading the object (`record_of_keyword`), whatever is
in the names, and from a class by reading its lines (`classFields`), if the names are spelled like
names. The text then also shows which of the two it is, the name, and the base. So records that
differ have different texts (`RecordSpelled.determines`).
-/

namespace UmlTyping

/-- The names in a reference are spelled like names. -/
structure TypeRef.Spelled (A : Source.Alphabet) (r : TypeRef) : Prop where
  /-- The name of the entry. -/
  name : A.spells r.name = true
  /-- The package, if there is one. -/
  package : ∀ p ∈ r.package, A.spells p = true

theorem TypeRef.Spelled.newline_not_mem {A : Source.Alphabet} {r : TypeRef} (h : r.Spelled A) :
    '\n' ∉ r.name.toList ∧ ∀ p ∈ r.package, '\n' ∉ p.toList :=
  ⟨A.not_mem_of_spells h.name (by decide),
    fun p hp => A.not_mem_of_spells (h.package p hp) (by decide)⟩

namespace TypeExpr

lemma newline_not_mem_ref {r : TypeRef} (hname : '\n' ∉ r.name.toList)
    (hpackage : ∀ p ∈ r.package, '\n' ∉ p.toList) : '\n' ∉ r.text.toList := by
  obtain ⟨package, name, forward⟩ := r
  cases package with
  | none => cases forward <;> simpa [TypeRef.text] using hname
  | some package =>
    have hpackage := hpackage package rfl
    have hname : '\n' ∉ name.toList := hname
    cases forward <;> simp [TypeRef.text, hname, hpackage]

/-- A type is written in one line if its reference is. -/
lemma newline_not_mem_text {t : TypeExpr} (h : ∀ r ∈ t.ref?, '\n' ∉ r.text.toList) :
    '\n' ∉ t.text.toList := by
  cases t with
  | boolean => decide
  | string => decide
  | single r => exact h r rfl
  | oneOrMany r =>
    have href := h r rfl
    simp [text, href]

end TypeExpr

namespace Source

/-- A path is spelled like a name, or like two with a dot between them. -/
def Alphabet.SpellsPath (A : Alphabet) (path : String) : Prop :=
  A.spells path = true ∨
    ∃ package name, A.spells package = true ∧ A.spells name = true ∧ path = package ++ "." ++ name

/-- What a record is written from is spelled like names. Keywords may be among them. -/
structure RecordSpelled (A : Alphabet) (name : String) (base : Option String)
    (fields : List (String × TypeExpr)) : Prop where
  /-- The name of the record. -/
  name : A.spells name = true
  /-- The base, if there is one. -/
  base : ∀ b ∈ base, A.SpellsPath b
  /-- The names of the fields. -/
  fieldNames : ∀ f ∈ fields, A.spells f.1 = true
  /-- The types of the fields. -/
  fieldTypes : ∀ f ∈ fields, ∀ r ∈ f.2.ref?, r.Spelled A

variable {A : Alphabet} {name name' : String} {base base' : Option String}
  {fields fields' : List (String × TypeExpr)}

theorem needsMapping_iff : needsMapping fields = true ↔ ∃ f ∈ fields, f.1 ∈ keywords := by
  simp [needsMapping]

example : keywords.Nodup ∧ keywords.length = 35 := by decide

/-! ## Calls -/

/-- A call of `TypedDict` that passes a text for the fields. -/
def call (name text : String) : String :=
  name ++ " = TypedDict('" ++ name ++ "', " ++ text ++ ", total=False)"

/-- The name that the call for a record is assigned to. With a base it is that of a helper. -/
def holder (name : String) : Option String → String
  | none => name
  | some _ => helperName name

/-- The class that joins a base and a helper. -/
def joiningClass (name base : String) : String :=
  classHead name (base ++ ", " ++ helperName name) ++ " ..."

/-- What stands behind the call for a record. -/
def joining (name : String) : Option String → String
  | none => ""
  | some base => "\n\n\n" ++ joiningClass name base

lemma call_inj {text text' : String} : call name text = call name text' ↔ text = text' := by
  simp [call]

theorem record_eq_mapping (h : needsMapping fields = true) (name : String) (base : Option String) :
    record name base fields = mapping (holder name base) fields ++ joining name base := by
  cases base with
  | none => simp [record, h, holder, joining]
  | some base =>
    have hbases : base ++ ", " ++ helperName name = base ++ ", _" ++ name := by
      have hcomma : ", _" = ", " ++ "_" := rfl
      rw [hcomma, helperName]
      simp only [String.append_assoc]
    unfold record
    rw [if_pos h, joining, joiningClass, hbases]
    simp only [holder, helperName, String.append_assoc]

/-- A record with a field that is named like a keyword calls `TypedDict`. What it passes is an object
that holds the fields in their order and nothing else, whatever the names and the types contain. -/
theorem record_of_keyword (h : ∃ f ∈ fields, f.1 ∈ keywords) (name : String) :
    (∀ base, record name base fields = mapping (holder name base) fields ++ joining name base) ∧
      ∀ called, ∃ text, (∀ text', mapping called fields = call called text' ↔ text' = text) ∧
        Json.read text = some (Json.ofStrings (shown fields)) := by
  refine ⟨record_eq_mapping (needsMapping_iff.2 h) name, fun called => ?_⟩
  refine ⟨Json.object (shown fields), fun text' => ?_, Json.read_object _⟩
  have hcall : mapping called fields = call called (Json.object (shown fields)) := rfl
  rw [hcall, call_inj, eq_comm]

/-- Fields whose names and types have quotes, backslashes, line breaks and controls in them. -/
def awkward : List (String × TypeExpr) :=
  [("from", .string), ("a\": \"b\",\n  \"c", .boolean),
   ("\\", .single { package := some "\x00\x1f\t", name := "\"\x7d, total=False)" })]

theorem awkward_record : (∃ f ∈ awkward, f.1 ∈ keywords) ∧
    record "Leg" none awkward = mapping "Leg" awkward ∧
    ∃ text, mapping "Leg" awkward = call "Leg" text ∧
      Json.read text = some (.object
        [("from", .string "str"), ("a\": \"b\",\n  \"c", .string "Literal['true', 'false']"),
         ("\\", .string "\x00\x1f\t.\"\x7d, total=False)")]) := by
  have hkeyword : ∃ f ∈ awkward, f.1 ∈ keywords := ⟨("from", .string), by decide, by decide⟩
  obtain ⟨hrecord, hcalled⟩ := record_of_keyword hkeyword "Leg"
  obtain ⟨text, htext, hread⟩ := hcalled "Leg"
  have hplain : record "Leg" none awkward = mapping "Leg" awkward ++ "" := hrecord none
  rw [String.append_empty] at hplain
  exact ⟨hkeyword, hplain, text, (htext text).2 rfl, hread⟩

/-! ## Classes -/

/-- The field that a line in a class gives: the line is indented, and its first colon ends the name
of the field. -/
def fieldOfLine? : List Char → Option (String × String)
  | ' ' :: ' ' :: ' ' :: ' ' :: cs =>
    some (String.ofList (cs.takeWhile (· ≠ ':')), String.ofList ((cs.dropWhile (· ≠ ':')).drop 2))
  | _ => none

/-- The fields that the lines of a text give. -/
def classFields (cs : List Char) : List (String × String) :=
  (cs.splitOn '\n').filterMap fieldOfLine?

/-- Whether a text is a call: what follows its first word assigns one. -/
def callsTypedDict (cs : List Char) : Bool :=
  " = TypedDict(".toList.isPrefixOf (cs.dropWhile (· ≠ ' '))

lemma fieldOfLine?_fieldLine {f : String × TypeExpr} (h : ':' ∉ f.1.toList) :
    fieldOfLine? (fieldLine f).toList = some (f.1, f.2.text) := by
  have hline : (fieldLine f).toList =
      ' ' :: ' ' :: ' ' :: ' ' :: (f.1.toList ++ ':' :: ' ' :: f.2.text.toList) := by
    simp [fieldLine]
  obtain ⟨hname, hbehind⟩ := cut_separator h (' ' :: f.2.text.toList)
  rw [hline, fieldOfLine?, hname, hbehind]
  simp

lemma fieldOfLine?_classHead (name bases : String) (rest : List Char) :
    fieldOfLine? ((classHead name bases).toList ++ rest) = none := by
  simp [classHead, fieldOfLine?]

/-- The fields are read line by line. -/
lemma classFields_eq_readLines (cs : List Char) :
    classFields cs = readLines (fun line => (fieldOfLine? line).toList) cs :=
  List.filterMap_eq_flatMap_toList fieldOfLine? _

theorem record_eq_classBody (h : needsMapping fields = false) :
    record name base fields = classBody name (base.getD openRecord) fields := by
  simp [record, h]

lemma callsTypedDict_classBody {bases : String} (h : '=' ∉ name.toList) :
    callsTypedDict (classBody name bases fields).toList = false := by
  -- the second word is the name, and an equals sign cannot start it
  rw [toList_classBody]
  cases hname : name.toList with
  | nil => simp [callsTypedDict, openingLine, classHead, hname, List.isPrefixOf]
  | cons c cs =>
    rw [hname, List.mem_cons, not_or] at h
    simp [callsTypedDict, openingLine, classHead, hname, List.isPrefixOf, h.1]

/-! ## The lines of calls -/

lemma callsTypedDict_mapping {rest : List Char} (h : ' ' ∉ name.toList) :
    callsTypedDict ((mapping name fields).toList ++ rest) = true := by
  rw [toList_mapping_append, callsTypedDict, (cut_separator h _).2]
  simp

lemma mapping_append_inj {rest rest' : List Char} (h : ' ' ∉ name.toList) (h' : ' ' ∉ name'.toList)
    (heq : (mapping name fields).toList ++ rest = (mapping name' fields').toList ++ rest') :
    name = name' ∧ shown fields = shown fields' ∧ rest = rest' := by
  rw [toList_mapping_append, toList_mapping_append] at heq
  obtain ⟨hname, hbehind⟩ := append_separator_inj h h' heq
  obtain rfl := String.toList_inj.1 hname
  simp only [List.append_cancel_left_eq] at hbehind
  obtain ⟨hshown, hrest⟩ := Json.object_append_inj hbehind
  exact ⟨rfl, hshown, List.append_cancel_left hrest⟩

/-- A record that calls `TypedDict` is read by the line that opens the call, the one that closes it,
and the class behind it, if there is one. -/
theorem readLines_record_of_keyword {α : Type} (read : List Char → List α)
    (hmember : ∀ m rest, read (Json.memberText m ++ rest) = []) (hblank : read [] = [])
    (hmapping : needsMapping fields = true) (hname : '\n' ∉ name.toList)
    (hbase : ∀ b ∈ base, '\n' ∉ b.toList) :
    readLines read (record name base fields).toList =
      read (callOpening (holder name base)) ++ read "\x7d, total=False)".toList ++
        base.toList.flatMap fun b => read (joiningClass name b).toList := by
  have hholder : '\n' ∉ (holder name base).toList := by
    cases base <;> simp [holder, helperName, hname]
  have hfields : fields ≠ [] := by
    rintro rfl
    cases hmapping
  have hcall := readLines_mapping hmember hholder hfields
  rw [record_eq_mapping hmapping, String.toList_append]
  cases base with
  | none =>
    have hnone : (joining name none).toList = [] := rfl
    rw [hnone, List.append_nil, hcall]
    exact (List.append_nil _).symm
  | some b =>
    have hclass : '\n' ∉ (joiningClass name b).toList := by
      simp [joiningClass, classHead, helperName, hname, hbase b rfl]
    have hgap := readLines_append read []
    have hnil : readLines read [] = [] := (readLines_line List.not_mem_nil).trans hblank
    have hbehind : (joining name (some b)).toList =
        '\n' :: ([] ++ '\n' :: ([] ++ '\n' :: (joiningClass name b).toList)) := by
      simp [joining]
    rw [hbehind, readLines_append, hcall, hgap, hgap, hnil, readLines_line hclass]
    simp

lemma fieldOfLine?_memberText (m : String × String) (rest : List Char) :
    fieldOfLine? (Json.memberText m ++ rest) = none := by
  rw [Json.memberText_eq]
  rfl

/-- The line that opens a call is not indented. -/
lemma fieldOfLine?_callOpening (h : ' ' ∉ name.toList) :
    fieldOfLine? (callOpening name) = none := by
  unfold callOpening
  cases hname : name.toList with
  | nil => rfl
  | cons c cs =>
    rw [hname, List.mem_cons, not_or] at h
    rw [List.cons_append, fieldOfLine?]
    rintro cs' heq
    exact h.1 (List.cons.inj heq).1.symm

/-! ## Spelled records -/

lemma not_mem_of_spellsPath {path : String} (h : A.SpellsPath path) {c : Char}
    (hmark : c.toNat < 128 ∧ (c.isAlphanum || c = '_') = false) (hdot : c ≠ '.') :
    c ∉ path.toList := by
  rcases h with hname | ⟨package, name, hpackage, hname, rfl⟩
  · exact A.not_mem_of_spells hname hmark
  · simp [A.not_mem_of_spells hpackage hmark, A.not_mem_of_spells hname hmark, hdot]

namespace RecordSpelled

variable (h : RecordSpelled A name base fields) (h' : RecordSpelled A name' base' fields')

include h

lemma not_mem_name {c : Char} (hmark : c.toNat < 128 ∧ (c.isAlphanum || c = '_') = false) :
    c ∉ name.toList :=
  A.not_mem_of_spells h.name hmark

lemma colon_not_mem_field : ∀ f ∈ fields, ':' ∉ f.1.toList :=
  fun f hf => A.not_mem_of_spells (h.fieldNames f hf) (by decide)

lemma newline_not_mem_fieldLine : ∀ f ∈ fields, '\n' ∉ (fieldLine f).toList := by
  intro f hf
  have hname := A.not_mem_of_spells (h.fieldNames f hf) (c := '\n') (by decide)
  have htype : '\n' ∉ f.2.text.toList := by
    refine TypeExpr.newline_not_mem_text fun r hr => ?_
    obtain ⟨hname, hpackage⟩ := (h.fieldTypes f hf r hr).newline_not_mem
    exact TypeExpr.newline_not_mem_ref hname hpackage
  simp [fieldLine, hname, htype]

lemma not_mem_bases {c : Char} (hmark : c.toNat < 128 ∧ (c.isAlphanum || c = '_') = false)
    (hdot : c ≠ '.') (hopen : c ∉ openRecord.toList) : c ∉ (base.getD openRecord).toList := by
  cases base with
  | none => exact hopen
  | some b => exact not_mem_of_spellsPath (h.base b rfl) hmark hdot

/-- The fields are read off the lines of a class. -/
theorem classFields_record (hmapping : needsMapping fields = false) :
    classFields (record name base fields).toList = shown fields := by
  have hname : '\n' ∉ name.toList := h.not_mem_name (by decide)
  have hbases : '\n' ∉ (base.getD openRecord).toList :=
    h.not_mem_bases (by decide) (by decide) (by decide)
  have hhead : fieldOfLine? (openingLine name (base.getD openRecord) fields) = none :=
    fieldOfLine?_classHead _ _ _
  have hfields : (fields.flatMap fun f => (fieldOfLine? (fieldLine f).toList).toList) =
      shown fields := by
    unfold shown
    rw [← List.flatMap_singleton' (fields.map _), List.flatMap_map]
    refine List.flatMap_congr fun f hf => ?_
    rw [fieldOfLine?_fieldLine (h.colon_not_mem_field f hf)]
    rfl
  rw [classFields_eq_readLines, record_eq_classBody hmapping,
    readLines_classBody hname hbases h.newline_not_mem_fieldLine, hhead, hfields]
  rfl

lemma not_mem_holder {c : Char} (hmark : c.toNat < 128 ∧ (c.isAlphanum || c = '_') = false) :
    c ∉ (holder name base).toList := by
  have hname : c ∉ name.toList := h.not_mem_name hmark
  cases base with
  | none => exact hname
  | some b =>
    have hunderscore : c ≠ '_' := by
      rintro rfl
      exact absurd hmark.2 (by decide)
    simp [holder, helperName, hname, hunderscore]

/-- The lines of a call give no fields. -/
theorem classFields_record_of_keyword (hmapping : needsMapping fields = true) :
    classFields (record name base fields).toList = [] := by
  have hname : '\n' ∉ name.toList := h.not_mem_name (by decide)
  have hbase : ∀ b ∈ base, '\n' ∉ b.toList := by
    intro b hb
    exact not_mem_of_spellsPath (h.base b hb) (by decide) (by decide)
  have hmember : ∀ m rest, (fieldOfLine? (Json.memberText m ++ rest)).toList = [] := by
    intro m rest
    rw [fieldOfLine?_memberText]
    rfl
  have hopening : fieldOfLine? (callOpening (holder name base)) = none :=
    fieldOfLine?_callOpening (h.not_mem_holder (by decide))
  have hclosing : fieldOfLine? "\x7d, total=False)".toList = none := by decide
  have hclass : ∀ b, fieldOfLine? (joiningClass name b).toList = none := by
    intro b
    rw [joiningClass, String.toList_append]
    exact fieldOfLine?_classHead _ _ _
  have hjoining : (base.toList.flatMap fun b => (fieldOfLine? (joiningClass name b).toList).toList) =
      [] := List.flatMap_eq_nil_iff.2 fun b _ => congrArg Option.toList (hclass b)
  have hblank : (fieldOfLine? []).toList = [] := rfl
  have hlines := readLines_record_of_keyword (fun line => (fieldOfLine? line).toList) hmember hblank
    hmapping hname hbase
  rw [classFields_eq_readLines, hlines, hopening, hclosing, hjoining]
  rfl

end RecordSpelled

/-- What stands behind a call shows the base, if there is one. -/
lemma joining_inj (hholder : holder name base = holder name' base')
    (hjoining : joining name base = joining name' base') : name = name' ∧ base = base' := by
  have hne : ∀ n b, joining n (some b) ≠ joining n none := by
    intro n b
    simp [joining]
  cases base with
  | none =>
    cases base' with
    | none => exact ⟨hholder, rfl⟩
    | some b' => exact absurd hjoining.symm (hne name' b')
  | some b =>
    cases base' with
    | none => exact absurd hjoining (hne name b)
    | some b' =>
      obtain rfl := helperName_inj.1 hholder
      have hbase : b = b' := by
        simpa [joining, joiningClass, classHead] using hjoining
      exact ⟨rfl, congrArg some hbase⟩

/-- No path is spelled like the bases of a record that has no base. -/
lemma eq_of_getD_openRecord (h : ∀ b ∈ base, A.SpellsPath b) (h' : ∀ b ∈ base', A.SpellsPath b)
    (heq : base.getD openRecord = base'.getD openRecord) : base = base' := by
  have hopen : ∀ b, A.SpellsPath b → b ≠ openRecord := by
    rintro b hb rfl
    exact not_mem_of_spellsPath hb (c := ' ') (by decide) (by decide) (by decide)
  cases base with
  | none =>
    cases base' with
    | none => rfl
    | some b' => exact absurd heq.symm (hopen b' (h' b' rfl))
  | some b =>
    cases base' with
    | none => exact absurd heq (hopen b (h b rfl))
    | some b' => exact congrArg some heq

/-- The head of a class shows the name and the bases. -/
lemma classHead_append_inj {bases bases' : String} {rest rest' : List Char} (h : '(' ∉ name.toList)
    (h' : '(' ∉ name'.toList) (hbases : ')' ∉ bases.toList) (hbases' : ')' ∉ bases'.toList)
    (heq : (classHead name bases).toList ++ rest = (classHead name' bases').toList ++ rest') :
    name = name' ∧ bases = bases' := by
  have hhead : ∀ n bs r, (classHead n bs).toList ++ r = "class ".toList ++
      (n.toList ++ '(' :: (bs.toList ++ ')' :: ':' :: r)) := by
    intro n bs r
    simp [classHead]
  rw [hhead, hhead, List.append_cancel_left_eq] at heq
  obtain ⟨hname, hbehind⟩ := append_separator_inj h h' heq
  obtain ⟨heq, -⟩ := append_separator_inj hbases hbases' hbehind
  exact ⟨String.toList_inj.1 hname, String.toList_inj.1 heq⟩

namespace RecordSpelled

variable (h : RecordSpelled A name base fields) (h' : RecordSpelled A name' base' fields')

include h

/-- The source text of a record shows whether it is a call. -/
theorem callsTypedDict_record :
    callsTypedDict (record name base fields).toList = needsMapping fields := by
  cases hmapping : needsMapping fields with
  | false =>
    rw [record_eq_classBody hmapping]
    exact callsTypedDict_classBody (h.not_mem_name (by decide))
  | true =>
    rw [record_eq_mapping hmapping, String.toList_append]
    exact callsTypedDict_mapping (h.not_mem_holder (by decide))

/-- No field is listed in the lines of a record if one is named like a keyword. Otherwise all are. -/
theorem classFields_eq : classFields (record name base fields).toList =
    if ∃ f ∈ fields, f.1 ∈ keywords then [] else shown fields := by
  split
  next hkeyword => exact h.classFields_record_of_keyword (needsMapping_iff.2 hkeyword)
  next hnone =>
    have hmapping : needsMapping fields = false := by
      rw [← Bool.not_eq_true, needsMapping_iff]
      exact hnone
    exact h.classFields_record hmapping

theorem not_mem_keywords {f : String × String}
    (hf : f ∈ classFields (record name base fields).toList) : f.1 ∉ keywords := by
  intro hkeyword
  rw [h.classFields_eq] at hf
  split at hf
  · cases hf
  next hnone =>
    obtain ⟨field, hfield, rfl⟩ := List.mem_map.1 hf
    exact hnone ⟨field, hfield, hkeyword⟩

include h'

/-- Records that are written as calls show what they are written from. -/
lemma eq_of_calls (hmapping : needsMapping fields = true) (hmapping' : needsMapping fields' = true)
    (heq : record name base fields = record name' base' fields') :
    name = name' ∧ base = base' ∧ shown fields = shown fields' := by
  have htext := congrArg String.toList heq
  rw [record_eq_mapping hmapping, record_eq_mapping hmapping', String.toList_append,
    String.toList_append] at htext
  obtain ⟨hholder, hshown, hbehind⟩ := mapping_append_inj (h.not_mem_holder (by decide))
    (h'.not_mem_holder (by decide)) htext
  obtain ⟨hname, hbase⟩ := joining_inj hholder (String.toList_inj.1 hbehind)
  exact ⟨hname, hbase, hshown⟩

/-- Records that are written as classes show what they are written from. -/
lemma eq_of_classes (hmapping : needsMapping fields = false)
    (hmapping' : needsMapping fields' = false)
    (heq : record name base fields = record name' base' fields') :
    name = name' ∧ base = base' ∧ shown fields = shown fields' := by
  have hshown : shown fields = shown fields' := by
    rw [← h.classFields_record hmapping, heq, h'.classFields_record hmapping']
  -- the lines have shown the fields, and what stands in front of them shows the rest
  have hhead := congrArg String.toList heq
  rw [record_eq_classBody hmapping, record_eq_classBody hmapping', toList_classBody,
    toList_classBody, openingLine, openingLine, List.append_assoc, List.append_assoc] at hhead
  have hbases : ')' ∉ (base.getD openRecord).toList :=
    h.not_mem_bases (by decide) (by decide) (by decide)
  have hbases' : ')' ∉ (base'.getD openRecord).toList :=
    h'.not_mem_bases (by decide) (by decide) (by decide)
  obtain ⟨hname, hgetD⟩ := classHead_append_inj (h.not_mem_name (by decide))
    (h'.not_mem_name (by decide)) hbases hbases' hhead
  exact ⟨hname, eq_of_getD_openRecord h.base h'.base hgetD, hshown⟩

end RecordSpelled

/-- The source text of a record that is spelled like names determines what it is written from: the
name, the base, and the fields in their order with the texts of their types. It is a call exactly if
a field is named like a keyword. A class gives all fields in its lines, a call gives none there, and
no line of either gives a field that is named like a keyword. A call passes all fields, and with a
base it is for a helper that the class of the name joins to the base. -/
theorem RecordSpelled.determines (h : RecordSpelled A name base fields) :
    (∀ name' base' fields', RecordSpelled A name' base' fields' →
      record name base fields = record name' base' fields' →
        name = name' ∧ base = base' ∧ shown fields = shown fields') ∧
    (callsTypedDict (record name base fields).toList = true ↔ ∃ f ∈ fields, f.1 ∈ keywords) ∧
    classFields (record name base fields).toList =
      (if ∃ f ∈ fields, f.1 ∈ keywords then [] else shown fields) ∧
    (∀ f ∈ classFields (record name base fields).toList, f.1 ∉ keywords) ∧
    ((∃ f ∈ fields, f.1 ∈ keywords) → ∃ text,
      record name base fields = call (holder name base) text ++ joining name base ∧
        Json.read text = some (Json.ofStrings (shown fields))) := by
  refine ⟨?_, ?_, h.classFields_eq, fun f hf => h.not_mem_keywords hf, ?_⟩
  · intro name' base' fields' h' heq
    have hsame : needsMapping fields = needsMapping fields' := by
      rw [← h.callsTypedDict_record, heq, h'.callsTypedDict_record]
    cases hmapping : needsMapping fields with
    | false => exact h.eq_of_classes h' hmapping (hsame.symm.trans hmapping) heq
    | true => exact h.eq_of_calls h' hmapping (hsame.symm.trans hmapping) heq
  · rw [h.callsTypedDict_record, needsMapping_iff]
  · intro hkeyword
    exact ⟨Json.object (shown fields), record_eq_mapping (needsMapping_iff.2 hkeyword) name base,
      Json.read_object _⟩

/-- Fields of a record for a leg of a flight, one of them named like a keyword. -/
def legFields : List (String × TypeExpr) :=
  [("from", .single { package := some "common", name := "Place" }), ("stops", .boolean),
   ("onward", .oneOrMany { package := none, name := "Leg", forward := true })]

theorem leg_determines : RecordSpelled .ascii "Leg" (some "common.Named") legFields ∧
    (∀ name base fields, RecordSpelled .ascii name base fields →
      record "Leg" (some "common.Named") legFields = record name base fields →
        "Leg" = name ∧ some "common.Named" = base ∧ shown legFields = shown fields) ∧
    classFields (record "Leg" (some "common.Named") legFields).toList = [] ∧
    ∃ text, record "Leg" (some "common.Named") legFields =
        call "_Leg" text ++ "\n\n\nclass Leg(common.Named, _Leg): ..." ∧
      Json.read text = some (Json.ofStrings
        [("from", "common.Place"), ("stops", "Literal['true', 'false']"),
         ("onward", "Union['Leg', list['Leg']]")]) := by
  have hspelled : RecordSpelled .ascii "Leg" (some "common.Named") legFields := by
    have hpath : Alphabet.ascii.SpellsPath "common.Named" :=
      Or.inr ⟨"common", "Named", by decide, by decide, by decide⟩
    have hplace : TypeRef.Spelled .ascii { package := some "common", name := "Place" } :=
      ⟨by decide, by decide⟩
    have hleg : TypeRef.Spelled .ascii { package := none, name := "Leg", forward := true } :=
      ⟨by decide, by decide⟩
    refine ⟨by decide, ?_, by decide, ?_⟩
    · simpa using hpath
    · simpa [legFields, TypeExpr.ref?] using ⟨hplace, hleg⟩
  obtain ⟨hinj, -, hlines, -, hcall⟩ := hspelled.determines
  have hkeyword : ∃ f ∈ legFields, f.1 ∈ keywords := ⟨_, List.mem_cons_self, by decide⟩
  rw [if_pos hkeyword] at hlines
  obtain ⟨text, htext, hread⟩ := hcall hkeyword
  exact ⟨hspelled, hinj, hlines, text, htext, hread⟩

end Source

end UmlTyping
