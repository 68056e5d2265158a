import UmlTyping.Proofs.Recording

/-!
# Names in source text

Source text gives names line by line: an import names what it imports, a definition starts with the
name that it defines, and a field in a class with the name of the field (`namesOfLine`). Nothing else
that is generated starts a line in one of these ways. So the lines of a module give the names of
what it imports and of the entries that it defines, in that order, as long as these names are words
and literals end where they should (`Presents.namesIn_eq`).
-/

namespace UmlTyping

namespace Source

/-- The names that a line gives, each with what it is for. What stands in front of an equals sign is
defined, and so is what stands between `class` and a bracket. -/
def namesOfLine (line : List Char) : List (NamePosition × String) :=
  if " = ".toList.isPrefixOf (line.dropWhile (· ≠ ' ')) then
    [(.definition, String.ofList (line.takeWhile (· ≠ ' ')))]
  else if "class ".toList.isPrefixOf line then
    [(.definition, String.ofList ((line.drop 6).takeWhile (· ≠ '(')))]
  else if "from . import ".toList.isPrefixOf line then
    [(.sibling, String.ofList (line.drop 14))]
  else if "from typing import ".toList.isPrefixOf line then
    (((line.drop 19).filter (· ≠ ' ')).splitOn ',').map fun name => (.typing, String.ofList name)
  else (fieldOfLine? line).toList.map fun f => (.field, f.1)

/-- The names that a text gives. -/
def namesIn (cs : List Char) : List (NamePosition × String) := readLines namesOfLine cs

variable {name : String} {base : Option String} {fields : List (String × TypeExpr)}

/-! ## Lines -/

lemma namesOfLine_assigned (h : ' ' ∉ name.toList) (rest : List Char) :
    namesOfLine (name.toList ++ ' ' :: '=' :: ' ' :: rest) = [(.definition, name)] := by
  obtain ⟨hname, hbehind⟩ := cut_separator h ('=' :: ' ' :: rest)
  unfold namesOfLine
  rw [hname, hbehind, if_pos (by simp), String.ofList_toList]

lemma namesOfLine_classHead (hopen : '(' ∉ name.toList) (hequals : '=' ∉ name.toList)
    (bases : String) (rest : List Char) :
    namesOfLine ((classHead name bases).toList ++ rest) = [(.definition, name)] := by
  have hline : (classHead name bases).toList ++ rest = "class ".toList ++
      (name.toList ++ '(' :: (bases.toList ++ ')' :: ':' :: rest)) := by
    simp [classHead]
  -- the second word is the name, and an equals sign cannot start it
  have hassigns : " = ".toList.isPrefixOf (("class ".toList ++
      (name.toList ++ '(' :: (bases.toList ++ ')' :: ':' :: rest))).dropWhile (· ≠ ' ')) = false := by
    cases hname : name.toList with
    | nil => simp [List.isPrefixOf]
    | cons c cs =>
      rw [hname, List.mem_cons, not_or] at hequals
      simp [List.isPrefixOf, hequals.1]
  have hdrop : ("class ".toList ++ (name.toList ++ '(' :: (bases.toList ++ ')' :: ':' :: rest))).drop
      6 = name.toList ++ '(' :: (bases.toList ++ ')' :: ':' :: rest) := rfl
  obtain ⟨hname, -⟩ := cut_separator hopen (bases.toList ++ ')' :: ':' :: rest)
  unfold namesOfLine
  rw [hline, hassigns, if_neg Bool.false_ne_true, if_pos (by simp), hdrop, hname,
    String.ofList_toList]

lemma namesOfLine_fieldLine {f : String × TypeExpr} (h : ':' ∉ f.1.toList) :
    namesOfLine (fieldLine f).toList = [(.field, f.1)] := by
  have hfield := fieldOfLine?_fieldLine h
  have hline : (fieldLine f).toList =
      ' ' :: ' ' :: ' ' :: ' ' :: (f.1.toList ++ ':' :: ' ' :: f.2.text.toList) := by
    simp [fieldLine]
  unfold namesOfLine
  rw [hfield, hline]
  rfl

lemma namesOfLine_memberText (m : String × String) (rest : List Char) :
    namesOfLine (Json.memberText m ++ rest) = [] := by
  rw [Json.memberText_eq]
  rfl

lemma namesOfLine_importLine (q : String) :
    namesOfLine ("from . import ".toList ++ q.toList) = [(.sibling, q)] := by
  have hline : namesOfLine ("from . import ".toList ++ q.toList) =
      [(.sibling, String.ofList q.toList)] := rfl
  rw [hline, String.ofList_toList]

/-! ## Definitions -/

lemma not_mem_marks_of_isWord (h : isWord name = true) :
    ' ' ∉ name.toList ∧ '\n' ∉ name.toList ∧ '(' ∉ name.toList ∧ '=' ∉ name.toList ∧
      ':' ∉ name.toList :=
  ⟨not_mem_of_isWord h (by decide), not_mem_of_isWord h (by decide),
    not_mem_of_isWord h (by decide), not_mem_of_isWord h (by decide),
    not_mem_of_isWord h (by decide)⟩

theorem namesIn_append (cs rest : List Char) :
    namesIn (cs ++ '\n' :: rest) = namesIn cs ++ namesIn rest :=
  readLines_append namesOfLine cs rest

theorem namesIn_primitive (h : isWord name = true) :
    namesIn (primitive name).toList = [(.definition, name)] := by
  obtain ⟨hblank, hnewline, -⟩ := not_mem_marks_of_isWord h
  have htext : (primitive name).toList = name.toList ++ ' ' :: '=' :: ' ' :: "str".toList := by
    simp [primitive]
  have hline : '\n' ∉ name.toList ++ ' ' :: '=' :: ' ' :: "str".toList := by
    simp [hnewline]
  unfold namesIn
  rw [htext, readLines_line hline, namesOfLine_assigned hblank]

lemma newline_not_mem_behind {ls : List (List Char)} (h : ∀ l ∈ ls, '\n' ∉ l) :
    '\n' ∉ behind ls := by
  induction ls with
  | nil => decide
  | cons l ls ih =>
    rw [List.forall_mem_cons] at h
    simp [behind, h.1, ih h.2]

theorem namesIn_enumeration {literals : List String} (h : isWord name = true)
    (hne : literals ≠ []) (hliterals : ∀ l ∈ literals, '\n' ∉ l.toList) :
    namesIn (enumeration name literals).toList = [(.definition, name)] := by
  obtain ⟨hblank, hnewline, -⟩ := not_mem_marks_of_isWord h
  match literals with
  | [] => exact absurd rfl hne
  | l :: ls =>
    rw [List.forall_mem_cons] at hliterals
    have hbehind : '\n' ∉ behind (ls.map String.toList) :=
      newline_not_mem_behind (List.forall_mem_map.2 hliterals.2)
    have htext : (enumeration name (l :: ls)).toList = name.toList ++ ' ' :: '=' :: ' ' ::
        ("Literal[".toList ++ '"' :: (l.toList ++ '"' :: behind (ls.map String.toList))) := by
      rw [toList_enumeration]
      simp
    have hline : '\n' ∉ name.toList ++ ' ' :: '=' :: ' ' ::
        ("Literal[".toList ++ '"' :: (l.toList ++ '"' :: behind (ls.map String.toList))) := by
      simp [hnewline, hliterals.1, hbehind]
    unfold namesIn
    rw [htext, readLines_line hline, namesOfLine_assigned hblank]

/-- A class gives its name and then its fields. -/
theorem namesIn_classBody {bases : String} (h : isWord name = true) (hbases : '\n' ∉ bases.toList)
    (hfields : ∀ f ∈ fields, isWord f.1 = true ∧ '\n' ∉ f.2.text.toList) :
    namesIn (classBody name bases fields).toList =
      (.definition, name) :: fields.map (.field, ·.1) := by
  obtain ⟨-, hnewline, hopen, hequals, -⟩ := not_mem_marks_of_isWord h
  have hlines : ∀ f ∈ fields, '\n' ∉ (fieldLine f).toList := by
    intro f hf
    obtain ⟨hname, htype⟩ := hfields f hf
    simp [fieldLine, htype, (not_mem_marks_of_isWord hname).2.1]
  have hnames : fields.flatMap (fun f => namesOfLine (fieldLine f).toList) =
      fields.map (.field, ·.1) := by
    rw [← List.flatMap_singleton' (fields.map _), List.flatMap_map]
    refine List.flatMap_congr fun f hf => ?_
    exact namesOfLine_fieldLine (not_mem_marks_of_isWord (hfields f hf).1).2.2.2.2
  unfold namesIn
  rw [readLines_classBody hnewline hbases hlines, hnames, openingLine,
    namesOfLine_classHead hopen hequals]
  rfl

/-- A call gives the name that it is assigned to, and the class behind it its own. The fields are not
looked at. -/
theorem namesIn_record_of_keyword (hmapping : needsMapping fields = true) (h : isWord name = true)
    (hbase : ∀ b ∈ base, '\n' ∉ b.toList) :
    namesIn (record name base fields).toList =
      (.definition, holder name base) :: base.toList.map fun _ => (.definition, name) := by
  obtain ⟨-, hnewline, hopen, hequals, -⟩ := not_mem_marks_of_isWord h
  have hholder : ' ' ∉ (holder name base).toList := by
    cases base with
    | none => exact (not_mem_marks_of_isWord h).1
    | some b => exact (not_mem_marks_of_isWord (isWord_helperName.2 h)).1
  have hopening : namesOfLine (callOpening (holder name base)) = [(.definition, holder name base)] :=
    namesOfLine_assigned hholder _
  have hclosing : namesOfLine "\x7d, total=False)".toList = [] := by decide
  have hclass : ∀ b, namesOfLine (joiningClass name b).toList = [(.definition, name)] := by
    intro b
    rw [joiningClass, String.toList_append]
    exact namesOfLine_classHead hopen hequals _ _
  have hblank : namesOfLine [] = [] := rfl
  unfold namesIn
  rw [readLines_record_of_keyword namesOfLine namesOfLine_memberText hblank hmapping hnewline hbase,
    hopening, hclosing]
  cases base with
  | none => rfl
  | some b => simp [hclass]

end Source

open Source (NamePosition namesIn isWord)

namespace Entry

variable {m : Model} {e : Entry} {d : Definition}

/-- The names that the definition of an entry gives: those that it binds, and the fields if they
stand in a class. -/
def shownNames (e : Entry) : List (NamePosition × String) :=
  e.boundNames.map (.definition, ·) ++
    if e.hasClassFields then (e.attributes.map (·.name)).map (.field, ·) else []

/-- A definition without fields gives the name of its entry. -/
lemma shownNames_of_plain (h : DefinedAs m e d) (hkind : d.kind ≠ .record) :
    e.shownNames = [(.definition, e.name)] := by
  have hhelper : e.hasHelper = false := by
    rw [h.hasHelper_eq, (h.plain hkind).1]
    rfl
  have hclass : ¬ e.hasClassFields = true := fun hclass => hkind (h.hasClassFields_iff.1 hclass).1
  simp [shownNames, boundNames, hhelper, hclass]

section Record

variable (h : DefinedAs m e d) (hkind : d.kind = .record) (hname : isWord e.name = true)
  (hreferences : ∀ r ∈ d.references, '\n' ∉ r.text.toList)

include hreferences

lemma newline_not_mem_base : ∀ b ∈ d.base.map (·.text), '\n' ∉ b.toList := by
  intro b hb
  obtain ⟨r, hr, rfl⟩ := Option.map_eq_some_iff.1 hb
  exact hreferences r (List.mem_append_right _ (Option.mem_toList.2 hr))

include h hname

/-- A record with a field that is named like a keyword gives its name, behind that of a helper if it
has a base, and no fields. -/
lemma namesIn_call (hmapping : Source.needsMapping d.fields = true) :
    namesIn (Source.record e.name (d.base.map (·.text)) d.fields).toList = e.shownNames := by
  have hclass : ¬ e.hasClassFields = true := by
    intro hclass
    exact Bool.false_ne_true ((h.hasClassFields_iff.1 hclass).2.symm.trans hmapping)
  have hhelper : e.hasHelper = d.base.isSome := by
    rw [h.hasHelper_eq, hmapping, Bool.true_and]
  rw [Source.namesIn_record_of_keyword hmapping hname (newline_not_mem_base hreferences)]
  cases hbase : d.base with
  | none => simp [shownNames, boundNames, Source.holder, hhelper, hclass, hbase]
  | some r => simp [shownNames, boundNames, Source.holder, hhelper, hclass, hbase]

include hkind

/-- A record without a field that is named like a keyword gives its name and its fields. -/
lemma namesIn_class (hmapping : Source.needsMapping d.fields = false)
    (hattributes : ∀ a ∈ e.attributes, isWord a.name = true) :
    namesIn (Source.record e.name (d.base.map (·.text)) d.fields).toList = e.shownNames := by
  have hclass : e.hasClassFields = true := h.hasClassFields_iff.2 ⟨hkind, hmapping⟩
  have hhelper : e.hasHelper = false := by
    rw [h.hasHelper_eq, hmapping, Bool.false_and]
  have hmap : d.fields.map (·.1) = e.attributes.map (·.name) := (h.record hkind).map_fields
  have hfields : ∀ f ∈ d.fields, isWord f.1 = true ∧ '\n' ∉ f.2.text.toList := by
    intro f hf
    have hmem : f.1 ∈ e.attributes.map (·.name) := hmap ▸ List.mem_map_of_mem hf
    obtain ⟨a, ha, heq⟩ := List.mem_map.1 hmem
    refine ⟨heq ▸ hattributes a ha, TypeExpr.newline_not_mem_text fun r hr => hreferences r ?_⟩
    exact List.mem_append_left _ (List.mem_filterMap.2 ⟨f, hf, hr⟩)
  have hbases : '\n' ∉ ((d.base.map (·.text)).getD Source.openRecord).toList := by
    cases hbase : d.base.map (·.text) with
    | none => decide
    | some b => exact newline_not_mem_base hreferences b hbase
  have hshown : d.fields.map (fun f => ((.field, f.1) : NamePosition × String)) =
      (e.attributes.map (·.name)).map (.field, ·) := by
    rw [← hmap, List.map_map]
    rfl
  rw [Source.record_eq_classBody hmapping, Source.namesIn_classBody hname hbases hfields, hshown]
  simp only [shownNames, boundNames, hhelper, hclass, if_true, if_false, Bool.false_eq_true]
  rfl

end Record

/-- The source text of a definition gives the names of its entry. -/
theorem namesIn_code (h : (e.compile m).result = .ok d) (hname : isWord e.name = true)
    (hattributes : e.hasClassFields = true → ∀ a ∈ e.attributes, isWord a.name = true)
    (hliterals : e.tag = Kind.enumeration.tag → ∀ l ∈ e.literals, '\n' ∉ l.toList)
    (hreferences : ∀ r ∈ d.references, '\n' ∉ r.text.toList) :
    namesIn d.code.toList = e.shownNames := by
  have hdefined := compile_eq_ok h
  rcases compile_code h with ⟨hkind, hcode⟩ | ⟨hkind, hcode⟩ | ⟨hkind, hcode⟩
  · rw [hcode, shownNames_of_plain hdefined (by simp [hkind])]
    exact Source.namesIn_enumeration hname (literals_of_compile h hkind).1
      (hliterals (hdefined.kind_eq_iff.1 hkind))
  · rw [hcode, shownNames_of_plain hdefined (by simp [hkind])]
    exact Source.namesIn_primitive hname
  · rw [hcode]
    cases hmapping : Source.needsMapping d.fields with
    | false =>
      have hclass : e.hasClassFields = true := hdefined.hasClassFields_iff.2 ⟨hkind, hmapping⟩
      exact namesIn_class hdefined hkind hname hreferences hmapping (hattributes hclass)
    | true => exact namesIn_call hdefined hname hreferences hmapping

end Entry

/-! ## Modules -/

namespace Source

theorem namesIn_newline (rest : List Char) : namesIn ('\n' :: rest) = namesIn rest := by
  have hnil : namesIn [] = [] := rfl
  have happend := namesIn_append [] rest
  rw [hnil] at happend
  exact happend

lemma namesIn_imports {imports : List String} (h : ∀ q ∈ imports, '\n' ∉ q.toList)
    (rest : List Char) :
    namesIn ((String.join (imports.map fun q => "from . import " ++ q ++ "\n")).toList ++ rest) =
      imports.map (.sibling, ·) ++ namesIn rest := by
  induction imports with
  | nil => simp
  | cons q imports ih =>
    rw [List.forall_mem_cons] at h
    have hline : '\n' ∉ "from . import ".toList ++ q.toList := by
      simp [h.1]
    have hnames : namesIn ("from . import ".toList ++ q.toList) = [(.sibling, q)] := by
      unfold namesIn
      rw [readLines_line hline, namesOfLine_importLine]
    have hsplit : (String.join ((q :: imports).map fun q => "from . import " ++ q ++ "\n")).toList ++
        rest = "from . import ".toList ++ q.toList ++ '\n' ::
          ((String.join (imports.map fun q => "from . import " ++ q ++ "\n")).toList ++ rest) := by
      simp [String.join_cons]
    rw [hsplit, namesIn_append, hnames, ih h.2]
    rfl

lemma namesIn_codes (codes : List String) :
    namesIn (String.join (codes.map fun code => code ++ "\n\n")).toList =
      codes.flatMap fun code => namesIn code.toList := by
  induction codes with
  | nil => rfl
  | cons code codes ih =>
    have hsplit : (String.join ((code :: codes).map fun code => code ++ "\n\n")).toList =
        code.toList ++ '\n' :: '\n' ::
          (String.join (codes.map fun code => code ++ "\n\n")).toList := by
      simp [String.join_cons]
    rw [hsplit, namesIn_append, namesIn_newline, ih, List.flatMap_cons]

lemma toList_layout (imports codes : List String) : (Modules.layout imports codes).toList =
    "from typing import Literal, TypedDict, Union".toList ++ '\n' ::
      ((String.join (imports.map fun q => "from . import " ++ q ++ "\n")).toList ++
        '\n' :: '\n' :: (String.join (codes.map fun code => code ++ "\n\n")).toList) := by
  have hfirst : "from typing import Literal, TypedDict, Union\n".toList =
      "from typing import Literal, TypedDict, Union".toList ++ ['\n'] := by
    decide
  have hgap : "\n\n".toList = ['\n', '\n'] := rfl
  unfold Modules.layout
  rw [String.toList_append, String.toList_append, String.toList_append, hfirst, hgap]
  simp only [List.append_assoc, List.cons_append, List.nil_append]

/-- A module gives the names of `typing`, those of the packages that it imports, and then those that
its definitions give. -/
theorem namesIn_layout {imports : List String} (h : ∀ q ∈ imports, '\n' ∉ q.toList)
    (codes : List String) :
    namesIn (Modules.layout imports codes).toList = typingNames.map (.typing, ·) ++
      imports.map (.sibling, ·) ++ codes.flatMap fun code => namesIn code.toList := by
  have htyping : namesIn "from typing import Literal, TypedDict, Union".toList =
      typingNames.map (.typing, ·) := by
    decide
  rw [toList_layout, namesIn_append, htyping, namesIn_imports h, namesIn_newline, namesIn_newline,
    namesIn_codes, List.append_assoc]

end Source

namespace Model

variable {m : Model} {roots : List Identifier} {p content : String} {imports : List String}
  {es : List Entry} {e : Entry} {id : Identifier} {d : Definition} {r : TypeRef}

/-- What a definition refers to is reachable, so the reference is made of words. -/
theorem Legible.isWord_reference (hlegible : m.Legible roots) (hm : m.Coherent)
    (hid : m.Reachable roots id) (he : m.find? id = some e) (h : (e.compile m).result = .ok d)
    (hr : r ∈ d.references) : isWord r.name = true ∧ ∀ p ∈ r.package, isWord p = true := by
  have hdefine : m.define id = .ok d := define_eq_ok_iff.2 ⟨e, he, h⟩
  obtain rfl : d.id = id := hm.define_id hdefine
  have hdefined := Entry.compile_eq_ok h
  obtain ⟨id', hrefers⟩ := exists_refers hdefined he hr
  have hpoints := hrefers.pointsTo hdefined he
  have hid' : m.Reachable roots id' := by
    by_cases hown : id' = d.id
    · exact hown ▸ hid
    · exact hid.step ⟨d, hdefine, hpoints.mem_dependencies hown⟩
  obtain ⟨e', package, he', hpackage, rfl⟩ := hpoints.eq_seenFrom
  refine ⟨hlegible.words _ _ (.definition hid' he' (Entry.mem_boundNames.2 (Or.inl rfl))), ?_⟩
  intro p hp
  change (if package = d.package then none else some package) = some p at hp
  split at hp
  · cases hp
  · cases hp
    exact hlegible.words _ _ (.module hid' hpackage)

lemma Legible.newline_not_mem_reference (hlegible : m.Legible roots) (hm : m.Coherent)
    (hid : m.Reachable roots id) (he : m.find? id = some e) (h : (e.compile m).result = .ok d) :
    ∀ r ∈ d.references, '\n' ∉ r.text.toList := by
  intro r hr
  obtain ⟨hname, hpackage⟩ := hlegible.isWord_reference hm hid he h hr
  refine TypeExpr.newline_not_mem_ref (Source.not_mem_of_isWord hname (by decide)) ?_
  exact fun p hp => Source.not_mem_of_isWord (hpackage p hp) (by decide)

/-- The definition of an entry that the roots lead to gives the names of the entry. -/
theorem Legible.namesIn_code (hlegible : m.Legible roots) (hm : m.Coherent)
    (he : m.InModule roots p e) (h : (e.compile m).result = .ok d) :
    namesIn d.code.toList = e.shownNames := by
  obtain ⟨id, hid, -, he⟩ := he
  refine Entry.namesIn_code h ?_ ?_ ?_ (hlegible.newline_not_mem_reference hm hid he h)
  · exact hlegible.words _ _ (.definition hid he (Entry.mem_boundNames.2 (Or.inl rfl)))
  · exact fun hclass a ha => hlegible.words _ _ (.field hid he hclass ha)
  · exact fun htag l hl => Source.newline_not_mem_of_isPlain (hlegible.literals id e hid he htag l hl)

/-- A module gives the names of what it imports and of its entries, in that order. -/
theorem Presents.namesIn_eq (h : m.Presents roots p content imports es) (hm : m.Coherent)
    (hlegible : m.Legible roots) :
    namesIn content.toList = Source.typingNames.map (.typing, ·) ++ imports.map (.sibling, ·) ++
      es.flatMap (·.shownNames) := by
  obtain ⟨defs, hdefs, rfl⟩ := h.text
  have himports : ∀ q ∈ imports, '\n' ∉ q.toList := by
    intro q hq
    have hword := hlegible.words _ _ (.sibling ((h.mem_imports q).1 hq))
    exact Source.not_mem_of_isWord hword (by decide)
  have hshown : List.Forall₂ (fun e d => namesIn d.code.toList = e.shownNames) es defs := by
    have hin : ∀ e ∈ es, m.InModule roots p e := fun e he => (h.mem_entries e).1 he
    refine ((List.forall₂_and_left _ _).2 ⟨hin, hdefs⟩).imp ?_
    rintro e d ⟨he, hcompile, -⟩
    exact hlegible.namesIn_code hm he hcompile
  have hmap : defs.map (fun d => namesIn d.code.toList) = es.map (·.shownNames) := by
    rw [← List.forall₂_eq_eq_eq, List.forall₂_map_left_iff, List.forall₂_map_right_iff]
    exact hshown.flip
  rw [Source.namesIn_layout himports, List.flatMap_map, List.flatMap_def, hmap, List.flatMap_def]

end Model

end UmlTyping
