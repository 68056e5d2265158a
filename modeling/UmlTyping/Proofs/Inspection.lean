import UmlTyping.Proofs.Faults
import UmlTyping.Proofs.Indexing

/-!
# What is checked of a document

Indexing a document is one walk over its packages, in which each package is checked for a name and
then, member by member, for entries that are whole and whose identifiers are not taken. The recursion
that does so is gone once the walk is a list (`Xmi.packagesIn`): the faults of a document are those
of its packages, one package after the other (`Xmi.Document.faults`), and a document without fault is
described by what stands in it (`Xmi.Document.IsIndexable`, `Model.DescribedBy`).

* `Entry.failsFirst_ofElement`, `Model.failsFirst_file`, `Model.failsFirst_ofDocument`: an element,
  a package and a document fail with the first of their faults;
* `Xmi.Document.faults_eq_nil_iff`: the conditions for a document to hold a model;
* `Model.describedBy_of_ofDocument`: the names of the packages, and the entries of each.
-/

namespace UmlTyping

/-! ## Faults -/

/-- A part that has to be there is missing. -/
def lacks (field : Field) (part : Option String) : List ModelError :=
  if part = none then [.missingField field] else []

/-- What is wrong with the generalizations of the element `id`: the first one names no other, or
there is more than one. -/
def generalizationFaults (id : Identifier) (parts : List (Option String)) : List ModelError :=
  (parts.take 1).flatMap (lacks .general) ++
    if parts.length ≤ 1 then [] else [.malformed (.severalGeneralizations id)]

namespace Xmi

/-- What is wrong with an attribute. -/
def OwnedAttribute.faults (a : OwnedAttribute) : List ModelError :=
  lacks .attributeName a.name ++ lacks .attributeType a.typeRef

namespace Element

/-- What stands in a package to be an entry of it. -/
def candidates (p : Element) : List Element := p.members.filter (!·.isAnonymous)

/-- What is wrong with an element that is to be an entry. -/
def faults (c : Element) : List ModelError :=
  lacks .id c.id ++ lacks .tag c.tag ++ lacks .name c.name ++
    c.literals.flatMap (lacks .literalName) ++ c.attributes.flatMap OwnedAttribute.faults ++
    generalizationFaults (c.id.getD "") c.generalizations

/-- What is wrong with an element that is to be an entry of a package, behind others. -/
def candidateFaults (package : String) (earlier : List Element) (c : Element) : List ModelError :=
  c.faults ++
    if c.id ∈ earlier.map (·.id) then [.malformed (.duplicateIdentifier package)] else []

/-- What is wrong with a package, those that are nested in it apart. -/
def packageFaults (p : Element) : List ModelError :=
  lacks .packageName p.name ++ inTurn (candidateFaults (p.name.getD "")) [] p.candidates

/-- The element has all that an entry needs. -/
structure IsWhole (c : Element) : Prop where
  id : c.id ≠ none
  tag : c.tag ≠ none
  name : c.name ≠ none
  literals : none ∉ c.literals
  attributes : ∀ a ∈ c.attributes, a.name ≠ none ∧ a.typeRef ≠ none
  generalizations : c.generalizations.length ≤ 1 ∧ none ∉ c.generalizations

instance (p : Element) : Decidable p.IsIndexed :=
  decidable_of_iff (p.members.isEmpty = false ∨ p.elements.isEmpty = true) (by
    rw [IsIndexed, List.isEmpty_eq_false_iff, List.isEmpty_iff])

end Element

/-- What is wrong with a document: with its packages, in the order of the walk, and at last that
there is nothing to index. -/
def Document.faults (d : Document) : List ModelError :=
  (packagesIn d.elements).flatMap Element.packageFaults ++
    if ∃ p ∈ packagesIn d.elements, p.IsIndexed then [] else [.malformed .noPackage]

/-- A document holds a model. -/
structure Document.IsIndexable (d : Document) : Prop where
  named : ∀ p ∈ packagesIn d.elements, p.name ≠ none
  isWhole : ∀ p ∈ packagesIn d.elements, ∀ c ∈ p.candidates, c.IsWhole
  /-- No two entries of one package share their identifier. -/
  nodup : ∀ p ∈ packagesIn d.elements, (p.candidates.map (·.id)).Nodup
  indexed : ∃ p ∈ packagesIn d.elements, p.IsIndexed

end Xmi

/-! ### No fault -/

theorem lacks_eq_nil_iff {field : Field} {part : Option String} :
    lacks field part = [] ↔ part ≠ none := by
  unfold lacks
  split
  next h => simp [h]
  next h => simp [h]

theorem flatMap_lacks_eq_nil_iff {field : Field} {parts : List (Option String)} :
    parts.flatMap (lacks field) = [] ↔ none ∉ parts := by
  rw [List.flatMap_eq_nil_iff]
  constructor
  · intro h hmem
    exact lacks_eq_nil_iff.1 (h none hmem) rfl
  · rintro h part hpart
    exact lacks_eq_nil_iff.2 fun hnone => h (hnone ▸ hpart)

theorem generalizationFaults_eq_nil_iff {id : Identifier} {parts : List (Option String)} :
    generalizationFaults id parts = [] ↔ parts.length ≤ 1 ∧ none ∉ parts := by
  unfold generalizationFaults
  rw [List.append_eq_nil_iff, flatMap_lacks_eq_nil_iff, and_comm]
  by_cases hlength : parts.length ≤ 1
  · rw [List.take_of_length_le hlength]
    simp [hlength]
  · simp [hlength]

namespace Xmi

theorem Element.faults_eq_nil_iff {c : Element} : c.faults = [] ↔ c.IsWhole := by
  have hattributes : c.attributes.flatMap OwnedAttribute.faults = [] ↔
      ∀ a ∈ c.attributes, a.name ≠ none ∧ a.typeRef ≠ none := by
    rw [List.flatMap_eq_nil_iff]
    refine forall₂_congr fun a _ => ?_
    rw [OwnedAttribute.faults, List.append_eq_nil_iff, lacks_eq_nil_iff, lacks_eq_nil_iff]
  unfold faults
  simp only [List.append_eq_nil_iff, lacks_eq_nil_iff, flatMap_lacks_eq_nil_iff, hattributes,
    generalizationFaults_eq_nil_iff]
  constructor
  · rintro ⟨⟨⟨⟨⟨hid, htag⟩, hname⟩, hliterals⟩, hattributes⟩, hgeneral⟩
    exact ⟨hid, htag, hname, hliterals, hattributes, hgeneral⟩
  · rintro ⟨hid, htag, hname, hliterals, hattributes, hgeneral⟩
    exact ⟨⟨⟨⟨⟨hid, htag⟩, hname⟩, hliterals⟩, hattributes⟩, hgeneral⟩

theorem Element.packageFaults_eq_nil_iff {p : Element} : p.packageFaults = [] ↔
    p.name ≠ none ∧ (∀ c ∈ p.candidates, c.IsWhole) ∧ (p.candidates.map (·.id)).Nodup := by
  have hcandidate : ∀ package earlier (c : Element), candidateFaults package earlier c = [] ↔
      c.IsWhole ∧ c.id ∉ earlier.map (·.id) := by
    intro package earlier c
    unfold candidateFaults
    rw [List.append_eq_nil_iff, faults_eq_nil_iff]
    refine and_congr_right fun _ => ?_
    split
    next hid => simp [hid]
    next hid => simp [hid]
  unfold packageFaults
  rw [List.append_eq_nil_iff, lacks_eq_nil_iff, inTurn_eq_nil_iff_nodup (hcandidate _)]

theorem Document.faults_eq_nil_iff {d : Document} : d.faults = [] ↔ d.IsIndexable := by
  unfold faults
  rw [List.append_eq_nil_iff, List.flatMap_eq_nil_iff]
  simp only [Element.packageFaults_eq_nil_iff, ite_eq_left_iff, List.cons_ne_nil, imp_false, not_not]
  constructor
  · rintro ⟨hpackages, hindexed⟩
    exact ⟨fun p hp => (hpackages p hp).1, fun p hp => (hpackages p hp).2.1,
      fun p hp => (hpackages p hp).2.2, hindexed⟩
  · rintro ⟨hnamed, hwhole, hnodup, hindexed⟩
    exact ⟨fun p hp => ⟨hnamed p hp, hwhole p hp, hnodup p hp⟩, hindexed⟩

end Xmi

/-! ## The first fault -/

theorem failsFirst_require (field : Field) (part : Option String) :
    FailsFirst (require field part) (lacks field part) := by
  cases part with
  | none => exact failsFirst_error _ []
  | some value => exact failsFirst_ok value

theorem Attribute.failsFirst_ofOwned (a : Xmi.OwnedAttribute) :
    FailsFirst (Attribute.ofOwned a) a.faults := by
  unfold Attribute.ofOwned Xmi.OwnedAttribute.faults
  refine (failsFirst_require .attributeName a.name).bind fun name _ => ?_
  exact (failsFirst_require .attributeType a.typeRef).map _

theorem failsFirst_generalizationOf (id : Identifier) (parts : List (Option String)) :
    FailsFirst (generalizationOf id parts) (generalizationFaults id parts) := by
  match parts with
  | [] => exact failsFirst_ok none
  | first :: others =>
    unfold generalizationOf generalizationFaults
    rw [List.take_succ_cons, List.take_zero, List.flatMap_singleton]
    refine (failsFirst_require .general first).bind fun general _ => ?_
    cases others with
    | nil => exact failsFirst_ok (some general)
    | cons second others => exact failsFirst_error _ []

/-- The parts of an entry are asked for in one order. -/
theorem Entry.failsFirst_ofElement (c : Xmi.Element) : FailsFirst (Entry.ofElement c) c.faults := by
  unfold Entry.ofElement Xmi.Element.faults
  simp only [List.append_assoc]
  refine (failsFirst_require .id c.id).bind fun id hid => ?_
  refine (failsFirst_require .tag c.tag).bind fun tag _ => ?_
  refine (failsFirst_require .name c.name).bind fun name _ => ?_
  refine (failsFirst_mapM (failsFirst_require .literalName) c.literals).bind fun literals _ => ?_
  refine (failsFirst_mapM Attribute.failsFirst_ofOwned c.attributes).bind fun attributes _ => ?_
  rw [require_eq_ok_iff.1 hid, Option.getD_some]
  exact (failsFirst_generalizationOf id c.generalizations).map _

namespace Model

open Xmi (packagesIn IsLastNamed)

variable {d : Xmi.Document} {m : Model} {entries entries' : Table Entry} {package : String}

/-! ### The members of a package -/

/-- Files what stands in a package to be an entry. -/
def fileMember (package : String) (entries : Table Entry) (c : Xmi.Element) :
    Except ModelError (Table Entry) := do
  let entry ← Entry.ofElement c
  if entries.contains entry.id then throw (.malformed (.duplicateIdentifier package))
  pure (entries.insert entry.id entry)

/-- The entries that are filed are those of the elements before. -/
def FiledFrom (entries : Table Entry) (earlier : List Xmi.Element) : Prop :=
  ∀ id, entries.contains id = true ↔ some id ∈ earlier.map (·.id)

theorem result_indexMembers (package : String) (entries : Table Entry) (cs : List Xmi.Element) :
    (indexMembers package entries cs).result =
      (cs.filter (!·.isAnonymous)).foldlM (fileMember package) entries := by
  induction cs generalizing entries with
  | nil => rfl
  | cons c rest ih =>
    rw [indexMembers, List.filter_cons]
    cases hanonymous : c.isAnonymous with
    | true =>
      rw [if_pos rfl, Run.result_report_bind]
      exact ih entries
    | false =>
      rw [if_neg (by simp), if_pos (by rfl), List.foldlM_cons, Run.result_bind, Run.result_ofExcept,
        fileMember, bind_assoc]
      refine congrArg _ (funext fun entry => ?_)
      rw [Run.result_report_bind]
      split
      · rfl
      · exact ih _

theorem fileMember_eq_ok_iff {c : Xmi.Element} : fileMember package entries c = .ok entries' ↔
    ∃ e, Entry.ofElement c = .ok e ∧ entries.contains e.id = false ∧
      entries' = entries.insert e.id e := by
  unfold fileMember
  rw [bind_eq_ok_iff]
  refine exists_congr fun e => and_congr_right fun _ => ?_
  cases entries.contains e.id with
  | true =>
    constructor
    · intro h
      cases h
    · rintro ⟨h, -⟩
      cases h
  | false =>
    constructor
    · intro h
      exact ⟨rfl, (Except.ok.inj h).symm⟩
    · rintro ⟨-, rfl⟩
      rfl

theorem failsFirst_fileMember {earlier : List Xmi.Element} (h : FiledFrom entries earlier)
    (c : Xmi.Element) :
    FailsFirst (fileMember package entries c) (c.candidateFaults package earlier) := by
  unfold fileMember Xmi.Element.candidateFaults
  refine (Entry.failsFirst_ofElement c).bind fun e he => ?_
  have hid : c.id = some e.id := (Entry.ofElement_eq_ok_iff.1 he).id
  rw [hid]
  by_cases hmem : some e.id ∈ earlier.map (·.id)
  · rw [if_pos hmem, if_pos ((h e.id).2 hmem)]
    exact failsFirst_error _ []
  · rw [if_neg hmem, if_neg fun htaken => hmem ((h e.id).1 htaken)]
    exact failsFirst_ok _

theorem FiledFrom.fileMember {earlier : List Xmi.Element} {c : Xmi.Element}
    (h : FiledFrom entries earlier) (hc : fileMember package entries c = .ok entries') :
    FiledFrom entries' (earlier ++ [c]) := by
  obtain ⟨e, he, -, rfl⟩ := fileMember_eq_ok_iff.1 hc
  intro id
  rw [Table.contains_insert, Bool.or_eq_true, decide_eq_true_eq, h id, List.map_append,
    List.mem_append, List.map_singleton, List.mem_singleton, (Entry.ofElement_eq_ok_iff.1 he).id,
    Option.some.injEq, or_comm]

/-- Members are checked in their order, each against those before it. -/
theorem failsFirst_indexMembers (package : String) (cs : List Xmi.Element) :
    FailsFirst (indexMembers package ∅ cs).result
      (inTurn (Xmi.Element.candidateFaults package) [] (cs.filter (!·.isAnonymous))) := by
  rw [result_indexMembers]
  refine failsFirst_foldlM FiledFrom ?_ ?_ ?_ _
  · intro entries earlier c h
    exact failsFirst_fileMember h c
  · intro entries earlier c entries' h hc
    exact h.fileMember hc
  · intro id
    simp [Table.contains]

/-! ### The packages of a document -/

/-- A package is asked for its name, and then its members are filed. What only groups packages has
none. -/
theorem failsFirst_file (packages : Table Package) (p : Xmi.Element) :
    FailsFirst (file packages p) p.packageFaults := by
  unfold file Xmi.Element.packageFaults
  refine (failsFirst_require .packageName p.name).bind fun name hname => ?_
  rw [require_eq_ok_iff.1 hname, Option.getD_some]
  unfold indexOwn Xmi.Element.candidates Xmi.Element.members
  dsimp only
  split
  next hgroups =>
    rw [Bool.and_eq_true, List.isEmpty_iff] at hgroups
    rw [hgroups.1]
    exact failsFirst_ok packages
  · rw [Run.result_bind]
    exact (failsFirst_indexMembers name _).map _

/-- The names under which something is filed are those of the packages that are indexed. -/
theorem mem_keys_of_foldlM_file {packages packages' : Table Package} {ps : List Xmi.Element}
    (h : ps.foldlM file packages = .ok packages') {name : String} :
    name ∈ packages'.keys ↔
      name ∈ packages.keys ∨ ∃ p ∈ ps, p.IsIndexed ∧ p.name = some name := by
  induction ps generalizing packages with
  | nil =>
    cases h
    simp
  | cons p rest ih =>
    rw [List.foldlM_cons] at h
    obtain ⟨next, hp, h⟩ := bind_eq_ok_iff.1 h
    rw [ih h, List.exists_mem_cons_iff]
    obtain ⟨pname, hname, ⟨hnot, rfl⟩ | ⟨hindexed, entries, -, rfl⟩⟩ := file_eq_ok hp
    · simp only [hnot, false_and, false_or]
    · rw [Table.mem_keys_insert, hname, Option.some.injEq, and_iff_right hindexed, or_left_comm,
        or_assoc, eq_comm]

theorem mem_keys_of_foldlM_file_empty {packages : Table Package} {ps : List Xmi.Element}
    (h : ps.foldlM file ∅ = .ok packages) {name : String} :
    name ∈ packages.keys ↔ ∃ p ∈ ps, p.IsIndexed ∧ p.name = some name := by
  rw [mem_keys_of_foldlM_file h]
  exact or_iff_right fun hempty => by cases hempty

/-- Something is filed exactly if some package is indexed. -/
theorem isEmpty_of_foldlM_file {packages : Table Package} {ps : List Xmi.Element}
    (h : ps.foldlM file ∅ = .ok packages) :
    packages.isEmpty = true ↔ ¬ ∃ p ∈ ps, p.IsIndexed := by
  have hkeys : packages.isEmpty = true ↔ ∀ name, name ∉ packages.keys := by
    rw [Table.isEmpty, List.isEmpty_iff, ← List.eq_nil_iff_forall_not_mem, Table.keys,
      List.map_eq_nil_iff]
  rw [hkeys]
  constructor
  · rintro hempty ⟨p, hp, hindexed⟩
    obtain ⟨before, after, hfile⟩ := exists_file_of_mem h hp
    obtain ⟨name, hname, -⟩ := file_eq_ok hfile
    exact hempty name ((mem_keys_of_foldlM_file_empty h).2 ⟨p, hp, hindexed, hname⟩)
  · intro hnone name hname
    obtain ⟨p, hp, hindexed, -⟩ := (mem_keys_of_foldlM_file_empty h).1 hname
    exact hnone ⟨p, hp, hindexed⟩

/-- A document fails with the first of its faults. -/
theorem failsFirst_ofDocument (d : Xmi.Document) : FailsFirst (ofDocument d).result d.faults := by
  rw [result_ofDocument, Xmi.Document.faults]
  have hpackages : FailsFirst ((packagesIn d.elements).foldlM file ∅)
      ((packagesIn d.elements).flatMap Xmi.Element.packageFaults) := by
    rw [← inTurn_const Xmi.Element.packageFaults []]
    refine failsFirst_foldlM (fun _ _ => True) ?_ (fun _ _ _ _ _ _ => trivial) trivial _
    intro packages earlier p _
    exact failsFirst_file packages p
  refine hpackages.bind fun packages hfiled => ?_
  by_cases hindexed : ∃ p ∈ packagesIn d.elements, p.IsIndexed
  · rw [if_pos hindexed, if_neg fun hempty => (isEmpty_of_foldlM_file hfiled).1 hempty hindexed]
    exact failsFirst_ok _
  · rw [if_neg hindexed, if_pos ((isEmpty_of_foldlM_file hfiled).2 hindexed)]
    exact failsFirst_error _ []

/-! ## The model of a document -/

/-- The model holds what a document says, and nothing else. -/
structure DescribedBy (m : Model) (d : Xmi.Document) : Prop where
  /-- The packages of the model are those that are indexed. -/
  names : ∀ name, name ∈ m.packages.keys ↔
    ∃ p ∈ packagesIn d.elements, p.IsIndexed ∧ p.name = some name
  /-- Under a name stands the last package of that name, with what its members describe. -/
  package : ∀ name p, IsLastNamed (packagesIn d.elements) name p →
    ∃ package, m.package? name = some package ∧ package.name = name ∧
      ∀ id e, package.entries.get? id = some e ↔
        e.id = id ∧ ∃ c ∈ p.candidates, Entry.DescribedBy e c

/-- Only what is not anonymous describes an entry. -/
theorem exists_candidate_iff {p : Xmi.Element} {e : Entry} :
    (∃ c ∈ p.candidates, e.DescribedBy c) ↔ ∃ c ∈ p.members, e.DescribedBy c := by
  refine exists_congr fun c => ?_
  rw [Xmi.Element.candidates, List.mem_filter, Bool.not_eq_true', and_assoc]
  refine and_congr_right fun _ => ?_
  exact ⟨And.right, fun h => ⟨h.isAnonymous_eq_false, h⟩⟩

theorem describedBy_of_ofDocument (h : (ofDocument d).result = .ok m) : m.DescribedBy d := by
  have hfiled : (packagesIn d.elements).foldlM file ∅ = .ok m.packages :=
    foldlM_file_of_ofDocument h
  constructor
  · intro name
    exact mem_keys_of_foldlM_file_empty hfiled
  · intro name p hlast
    obtain ⟨entries, hentries, hpackage⟩ := foldlM_file_get?_last hfiled hlast
    refine ⟨{ name, entries }, hpackage, rfl, fun id e => ?_⟩
    rw [(indexMembers_spec hentries).2, Table.get?_empty, exists_candidate_iff]
    simp

/-- Indexing a document succeeds exactly if its packages are named, what stands in them to be an
entry is whole and no identifier is taken twice, and some package is indexed. The model then holds
what the document says. Else the error is that of the first fault on the walk. -/
theorem ofDocument_succeeds_iff_isIndexable (d : Xmi.Document) :
    ((∃ m, (ofDocument d).result = .ok m) ↔ d.IsIndexable) ∧
      (∀ m, (ofDocument d).result = .ok m → m.DescribedBy d) ∧
      ∀ err, (ofDocument d).result = .error err ↔ d.faults.head? = some err := by
  have hfails : FailsFirst (ofDocument d).result d.faults := failsFirst_ofDocument d
  refine ⟨?_, ?_, hfails⟩
  · rw [hfails.exists_ok_iff, Xmi.Document.faults_eq_nil_iff]
  · intro m hm
    exact describedBy_of_ofDocument hm

end Model

end UmlTyping
