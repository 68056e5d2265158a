import UmlTyping.Model.Error

/-!
# The parts of an identifier

An identifier that encodes a package is made of its marker, if it has one, of the path of the
package, of a dot and of its local name. The three readings take these parts from texts that differ:
the path of the package is read off the identifier without its marker, the local name off all of it,
and the short name off the path of the package. They belong together all the same, because the
marker has no dot in it: the dot behind the path of the package is the last one of either text
(`qualifiedPackage?_eq_some_iff`, `localName_eq`).

So the parts make up the identifier (`parts_of_identifier`), and no two identifiers have them in
common.
-/

namespace UmlTyping.Identifier

variable {id : Identifier} {qualified short : String}

/-- The marker in front of the path, or no text where there is none. -/
def markerOf (id : Identifier) : String :=
  if marker.toList.isPrefixOf id.toList then marker else ""

/-- The path has a dot in it, and its last dot is not its first character. -/
def EncodesPackage (id : Identifier) : Prop :=
  ∃ before after, id.path = before ++ '.' :: after ∧ '.' ∉ after ∧ before ≠ []

/-- An identifier is made of its marker, the path of a package and its local name, and the path of
the package ends with the short name. -/
structure MadeOf (id : Identifier) (qualified short : String) : Prop where
  eq_append : id = id.markerOf ++ qualified ++ "." ++ id.localName
  dot_not_mem_localName : '.' ∉ id.localName.toList
  qualified_ne_empty : qualified ≠ ""
  dot_not_mem_short : '.' ∉ short.toList
  /-- The short name is all of the path, or what follows its last dot. -/
  short_eq_or_exists : short = qualified ∨ ∃ outer, qualified = outer ++ "." ++ short

/-! ## The path of the package -/

theorem toList_eq (id : Identifier) : id.toList = id.markerOf.toList ++ id.path := by
  unfold markerOf path
  by_cases h : marker.toList.isPrefixOf id.toList = true
  · rw [if_pos h]
    obtain ⟨rest, hrest⟩ := List.isPrefixOf_iff_prefix.1 h
    simp only [← hrest, List.isPrefixOf_iff_prefix, List.prefix_append, if_true]
    rw [← String.length_toList, List.drop_left]
  · simp [h]

/-- The path of the package is what stands in front of the last dot of the path. -/
theorem qualifiedPackage?_eq_some_iff : id.qualifiedPackage? = some qualified ↔
    qualified ≠ "" ∧ ∃ after, id.path = qualified.toList ++ '.' :: after ∧ '.' ∉ after := by
  unfold qualifiedPackage?
  constructor
  · intro h
    split at h
    next c before after hsplit =>
      obtain rfl := Option.some.inj h
      have hne : String.ofList (c :: before) ≠ "" := by simp
      refine ⟨hne, after, ?_⟩
      rw [String.toList_ofList]
      exact splitLast_eq_some_iff.1 hsplit
    next => cases h
  · rintro ⟨hne, after, hpath⟩
    rw [splitLast_eq_some_iff.2 hpath]
    cases hq : qualified.toList with
    | nil => exact absurd (String.toList_eq_nil_iff.1 hq) hne
    | cons c before =>
      show some (String.ofList (c :: before)) = some qualified
      rw [← hq, String.ofList_toList]

theorem encodesPackage_iff :
    id.EncodesPackage ↔ ∃ qualified, id.qualifiedPackage? = some qualified := by
  constructor
  · rintro ⟨before, after, hpath, hafter, hne⟩
    refine ⟨String.ofList before, qualifiedPackage?_eq_some_iff.2 ⟨?_, after, ?_, hafter⟩⟩
    · simpa using hne
    · rw [String.toList_ofList]
      exact hpath
  · rintro ⟨qualified, h⟩
    obtain ⟨hne, after, hpath, hafter⟩ := qualifiedPackage?_eq_some_iff.1 h
    exact ⟨qualified.toList, after, hpath, hafter, by simpa using hne⟩

/-! ## What belongs to it -/

/-- The local name is what follows the last dot of the path, for that is the last dot of all. -/
theorem localName_eq {before after : List Char} (hpath : id.path = before ++ '.' :: after)
    (hafter : '.' ∉ after) : id.localName = String.ofList after := by
  unfold localName
  rw [toList_eq, hpath, ← List.append_assoc, lastSegment_append hafter]

theorem eq_append_of_qualifiedPackage? (h : id.qualifiedPackage? = some qualified) :
    id = id.markerOf ++ qualified ++ "." ++ id.localName := by
  obtain ⟨-, after, hpath, hafter⟩ := qualifiedPackage?_eq_some_iff.1 h
  apply String.toList_inj.1
  calc id.toList
      = id.markerOf.toList ++ (qualified.toList ++ '.' :: after) := by rw [toList_eq, hpath]
    _ = (id.markerOf ++ qualified ++ "." ++ id.localName).toList := by
      rw [localName_eq hpath hafter]
      simp

theorem short_eq_or_exists (qualified : String) :
    String.ofList (lastSegment qualified.toList) = qualified ∨
      ∃ outer, qualified = outer ++ "." ++ String.ofList (lastSegment qualified.toList) := by
  rcases lastSegment_eq_or_exists qualified.toList with heq | ⟨outer, houter⟩
  · rw [heq, String.ofList_toList]
    exact Or.inl rfl
  · refine Or.inr ⟨String.ofList outer, String.toList_inj.1 ?_⟩
    calc qualified.toList
        = outer ++ '.' :: lastSegment qualified.toList := houter
      _ = (String.ofList outer ++ "." ++ String.ofList (lastSegment qualified.toList)).toList := by
        simp

theorem madeOf (h : id.qualifiedPackage? = some qualified) :
    id.MadeOf qualified (String.ofList (lastSegment qualified.toList)) where
  eq_append := eq_append_of_qualifiedPackage? h
  dot_not_mem_localName := by
    unfold localName
    rw [String.toList_ofList]
    exact dot_not_mem_lastSegment id.toList
  qualified_ne_empty := (qualifiedPackage?_eq_some_iff.1 h).1
  dot_not_mem_short := by
    rw [String.toList_ofList]
    exact dot_not_mem_lastSegment qualified.toList
  short_eq_or_exists := short_eq_or_exists qualified

/-! ## Readings -/

theorem qualifiedPackage_eq_ok_iff :
    id.qualifiedPackage = .ok qualified ↔ id.qualifiedPackage? = some qualified := by
  unfold qualifiedPackage
  cases id.qualifiedPackage? with
  | none => simp [orInvalid]
  | some package => simp [orInvalid]

/-- Both packages are read, or neither is and the error carries the identifier. -/
theorem packages_eq (id : Identifier) :
    (∃ qualified, id.qualifiedPackage? = some qualified ∧ id.qualifiedPackage = .ok qualified ∧
      id.package = .ok (String.ofList (lastSegment qualified.toList))) ∨
    id.qualifiedPackage? = none ∧ id.qualifiedPackage = .error (.invalidIdentifier id) ∧
      id.package = .error (.invalidIdentifier id) := by
  unfold qualifiedPackage package package?
  cases id.qualifiedPackage? with
  | none => exact Or.inr ⟨rfl, rfl, rfl⟩
  | some qualified => exact Or.inl ⟨qualified, rfl, rfl, rfl⟩

/-- The path of a package and its short name are read off exactly those identifiers that encode a
package, which are made of what is read. Off any other neither is read, and the errors carry the
identifier. So an identifier that encodes a package is determined by its marker, the path of the
package and its local name. -/
theorem parts_of_identifier :
    (∀ id : Identifier,
      ((∃ qualified, id.qualifiedPackage = .ok qualified) ∧ (∃ short, id.package = .ok short) ↔
        id.EncodesPackage) ∧
      (∀ qualified short, id.qualifiedPackage = .ok qualified → id.package = .ok short →
        id.MadeOf qualified short) ∧
      (¬ id.EncodesPackage → id.qualifiedPackage = .error (.invalidIdentifier id) ∧
        id.package = .error (.invalidIdentifier id))) ∧
    ∀ (id id' : Identifier) (qualified : String), id.qualifiedPackage = .ok qualified →
      id'.qualifiedPackage = .ok qualified → id.markerOf = id'.markerOf →
        id.localName = id'.localName → id = id' := by
  constructor
  · intro id
    rw [encodesPackage_iff]
    rcases packages_eq id with ⟨qualified, hread, hqualified, hshort⟩ | ⟨hread, hqualified, hshort⟩
    · rw [hqualified, hshort, hread]
      refine ⟨by simp, ?_, by simp⟩
      intro q s hq hs
      obtain rfl := Except.ok.inj hq
      obtain rfl := Except.ok.inj hs
      exact madeOf hread
    · rw [hqualified, hshort, hread]
      simp
  · intro id id' qualified h h' hmarker hlocal
    rw [eq_append_of_qualifiedPackage? (qualifiedPackage_eq_ok_iff.1 h),
      eq_append_of_qualifiedPackage? (qualifiedPackage_eq_ok_iff.1 h'), hmarker, hlocal]

/-- Only one marker is taken off, and a package may have a short name without characters. -/
theorem doubly_marked_parts :
    qualifiedPackage "ID_ID_odd..Class" = .ok "ID_odd." ∧ package "ID_ID_odd..Class" = .ok "" ∧
      MadeOf "ID_ID_odd..Class" "ID_odd." "" := by
  have hread : qualifiedPackage? "ID_ID_odd..Class" = some "ID_odd." ∧
      package? "ID_ID_odd..Class" = some "" := by decide +kernel
  have hqualified : qualifiedPackage "ID_ID_odd..Class" = .ok "ID_odd." :=
    congrArg (orInvalid _) hread.1
  have hshort : package "ID_ID_odd..Class" = .ok "" := congrArg (orInvalid _) hread.2
  exact ⟨hqualified, hshort, (parts_of_identifier.1 _).2.1 _ _ hqualified hshort⟩

end UmlTyping.Identifier
