import UmlTyping.Proofs.Declarations

/-!
# Names where Python wants identifiers

The names of generated modules, and those that their source text gives, are the names of the model
(`spelled_iff_offered`). So they are identifiers exactly if those of the model are, and nothing sees
to that (`oddities_not_identifiers`): there may be a module without a name, an import of nothing, and
a class that is called `class`.
-/

namespace UmlTyping

open Source (NamePosition namesIn)

lemma mem_map_position {position position' : NamePosition} {name : String} {names : List String} :
    (position, name) ∈ names.map (position', ·) ↔ position = position' ∧ name ∈ names := by
  rw [List.mem_map]
  constructor
  · rintro ⟨name', hname, heq⟩
    cases heq
    exact ⟨rfl, hname⟩
  · rintro ⟨rfl, hname⟩
    exact ⟨name, hname, rfl⟩

theorem Entry.mem_shownNames {e : Entry} {position : NamePosition} {name : String} :
    (position, name) ∈ e.shownNames ↔ position = .definition ∧ name ∈ e.boundNames ∨
      position = .field ∧ e.hasClassFields = true ∧ name ∈ e.attributes.map (·.name) := by
  unfold shownNames
  rw [List.mem_append, mem_map_position]
  refine or_congr_right ?_
  cases e.hasClassFields with
  | false => simp
  | true => rw [if_pos rfl, mem_map_position, eq_self, true_and]

namespace Model

/-- Generated modules have a name in a position: it is that of a module, or the source text of one
gives it. -/
def Spelled (ms : Modules) : NamePosition → String → Prop
  | .module, name => ms.contains name = true
  | position, name =>
    ∃ p content, ms.get? p = some content ∧ (position, name) ∈ namesIn content.toList

variable {m : Model} {roots : List Identifier} {ds : List Definition} {ms : Modules}
  {p content : String} {imports : List String} {es : List Entry} {position : NamePosition}
  {name : String}

/-- The text of a module gives the names that the model has for its package. -/
theorem Presents.mem_namesIn_iff (h : m.Presents roots p content imports es) (hm : m.Coherent)
    (hlegible : m.Legible roots) : (position, name) ∈ namesIn content.toList ↔
      (position = .typing ∧ name ∈ Source.typingNames ∨
        position = .sibling ∧ m.PackageNeeds roots p name) ∨
      ∃ e, m.InModule roots p e ∧ (position, name) ∈ e.shownNames := by
  rw [h.namesIn_eq hm hlegible, List.mem_append, List.mem_append, mem_map_position, mem_map_position,
    List.mem_flatMap, h.mem_imports]
  simp only [h.mem_entries]

section Composed

variable (h : OrdersClosure m roots ds) (hms : ms.ComposedOf (ds.map (·.piece)))

include h hms

/-- There is a module for each package that the roots lead to. -/
theorem contains_iff_offered : ms.contains name = true ↔ m.Offered roots .module name := by
  rw [hms.contains_iff]
  constructor
  · rintro ⟨piece, hpiece, rfl⟩
    obtain ⟨d, hd, rfl⟩ := List.mem_map.1 hpiece
    exact .module (h.reachable hd) (h.package?_eq hd)
  · intro hname
    cases hname with
    | module hid hp =>
      obtain ⟨d, hd, -, rfl⟩ := h.exists_definition hid hp
      exact ⟨d.piece, List.mem_map_of_mem hd, rfl⟩

omit hms in
/-- All names but those of modules belong to a package. -/
theorem offered_iff (hne : position ≠ .module) : m.Offered roots position name ↔
    ∃ p, m.Offered roots .module p ∧
      ((position = .typing ∧ name ∈ Source.typingNames ∨
        position = .sibling ∧ m.PackageNeeds roots p name) ∨
      ∃ e, m.InModule roots p e ∧ (position, name) ∈ e.shownNames) := by
  have hpackage : ∀ id, m.Reachable roots id → ∃ p, id.package? = some p := by
    intro id hid
    obtain ⟨d, hd, rfl⟩ := List.mem_map.1 ((h.mem_iff id).2 hid)
    exact ⟨d.package, h.package?_eq hd⟩
  constructor
  · intro hname
    cases hname with
    | typing hid hname =>
      obtain ⟨p, hp⟩ := hpackage _ hid
      exact ⟨p, .module hid hp, Or.inl (Or.inl ⟨rfl, hname⟩)⟩
    | module => exact absurd rfl hne
    | sibling hneeds => exact ⟨_, offered_of_packageNeeds hneeds, Or.inl (Or.inr ⟨rfl, hneeds⟩)⟩
    | definition hid he hbound =>
      obtain ⟨p, hp⟩ := hpackage _ hid
      exact ⟨p, .module hid hp, Or.inr ⟨_, ⟨_, hid, hp, he⟩,
        Entry.mem_shownNames.2 (Or.inl ⟨rfl, hbound⟩)⟩⟩
    | field hid he hclass ha =>
      obtain ⟨p, hp⟩ := hpackage _ hid
      exact ⟨p, .module hid hp, Or.inr ⟨_, ⟨_, hid, hp, he⟩,
        Entry.mem_shownNames.2 (Or.inr ⟨rfl, hclass, List.mem_map_of_mem ha⟩)⟩⟩
  · rintro ⟨p, hmodule, (⟨rfl, hname⟩ | ⟨rfl, hneeds⟩) | ⟨e, ⟨id, hid, -, he⟩, hshown⟩⟩
    · cases hmodule with
      | module hid _ => exact .typing hid hname
    · exact .sibling hneeds
    · rcases Entry.mem_shownNames.1 hshown with ⟨rfl, hbound⟩ | ⟨rfl, hclass, hname⟩
      · exact .definition hid he hbound
      · obtain ⟨a, ha, rfl⟩ := List.mem_map.1 hname
        exact .field hid he hclass ha

/-- The names in generated source are those of the model. -/
theorem spelled_iff_offered (hm : m.Coherent) (hlegible : m.Legible roots) :
    Spelled ms position name ↔ m.Offered roots position name := by
  by_cases hmodule : position = .module
  · subst hmodule
    exact contains_iff_offered h hms
  have htext : Spelled ms position name ↔
      ∃ p content, ms.get? p = some content ∧ (position, name) ∈ namesIn content.toList := by
    cases position with
    | module => exact absurd rfl hmodule
    | typing => exact Iff.rfl
    | sibling => exact Iff.rfl
    | definition => exact Iff.rfl
    | field => exact Iff.rfl
  rw [htext, offered_iff h hmodule]
  refine exists_congr fun p => ?_
  rw [← contains_iff_offered h hms, Table.contains_eq_true_iff, ← exists_and_right]
  refine exists_congr fun content => and_congr_right fun hcontent => ?_
  obtain ⟨imports, es, hpresents⟩ := exists_presents h hm hms hcontent
  exact hpresents.mem_namesIn_iff hm hlegible

end Composed

/-- There is a module for each package that the roots lead to, named by a single segment, and it
presents what they lead to in that package. In legible source the names in the text are those of the
model as well. What is imported there is a module that is generated, and no field in a class is named
like a keyword. In any alphabet all names are identifiers exactly if the names of what the roots lead
to are, and then only literals can make the source illegible. -/
theorem generate_names (hm : m.IsLoaded) (h : (m.generate roots).result = .ok ms) :
    (∀ p content, ms.get? p = some content →
      ∃ imports es, m.Presents roots p content imports es) ∧
    (∀ name, Spelled ms .module name ↔ m.Offered roots .module name) ∧
    (∀ name, Spelled ms .module name → '.' ∉ name.toList) ∧
    (m.Legible roots →
      (∀ position name, Spelled ms position name ↔ m.Offered roots position name) ∧
      (∀ name, Spelled ms .sibling name → Spelled ms .module name) ∧
      (∀ name, Spelled ms .field name → name ∉ Source.keywords) ∧
      ∀ A : Source.Alphabet, (∀ c, A.starts c = true → A.continues c = true) →
        ((∀ position name, Spelled ms position name → A.isIdentifier name = true) ↔
          m.NamesSpelled A roots)) ∧
    ∀ A, m.NamesSpelled A roots → m.LiteralsPlain roots → m.Legible roots := by
  obtain ⟨ds, -, hclosure, hcomposed⟩ := composedOf_of_generate hm.coherent h
  have hmodule : ∀ name, Spelled ms .module name ↔ m.Offered roots .module name :=
    fun name => contains_iff_offered hclosure hcomposed
  refine ⟨fun p content => exists_presents hclosure hm.coherent hcomposed, hmodule, ?_, ?_, ?_⟩
  · exact fun name hname => ((hmodule name).1 hname).dot_not_mem
  · intro hlegible
    simp only [spelled_iff_offered hclosure hcomposed hm.coherent hlegible, implies_true, true_and]
    refine ⟨fun _ hname => hname.of_sibling, fun _ hname => hname.not_mem_keywords, ?_⟩
    exact fun A hA => (namesSpelled_iff hA).symm
  · exact fun A hspelled hliterals => hspelled.legible hliterals

theorem sample_generate_names : ∃ ms, (sample.generate ["ID_flight.Node"]).result = .ok ms ∧
    ∀ position name, Spelled ms position name →
      Source.Alphabet.ascii.isIdentifier name = true := by
  obtain ⟨ds, hds, -⟩ := sample_resolve_node
  obtain ⟨ms, hms, -⟩ := exists_generate sample_isLoaded.coherent hds
  obtain ⟨-, -, -, hnames, hlegible⟩ := generate_names sample_isLoaded hms
  obtain ⟨-, -, -, hspelled⟩ := hnames (hlegible .ascii sample_namesSpelled sample_literalsPlain)
  refine ⟨ms, hms, (hspelled .ascii fun c hc => ?_).2 sample_namesSpelled⟩
  -- a letter is a letter or a digit
  simp only [Source.Alphabet.ascii, Char.isAlphanum, Bool.or_eq_true] at hc ⊢
  exact hc.imp_left Or.inl

/-- A package whose short name is empty, with a record that is named like a keyword and has a field
with a blank in its name, and a record that needs it. -/
def oddDocument : String :=
  "<XMI><Model>
    <packagedElement type='uml:Package' name='odd.'>
      <packagedElement type='uml:Class' id='ID_odd..Class' name='class'>
        <ownedAttribute name='first name'><type idref='ID_Boolean'/></ownedAttribute>
      </packagedElement>
    </packagedElement>
    <packagedElement type='uml:Package' name='school'>
      <packagedElement type='uml:Class' id='ID_school.Course' name='Course'>
        <ownedAttribute name='held'><type idref='ID_odd..Class'/></ownedAttribute>
      </packagedElement>
    </packagedElement>
  </Model></XMI>"

/-- The record with a name that is none. -/
def oddClass : Entry :=
  ⟨"ID_odd..Class", "uml:Class", "class", [], [⟨"first name", "ID_Boolean", "1", "1"⟩], none⟩

/-- The model that the document holds. -/
def oddities : Model where
  packages := Table.ofList
    [("odd.", ⟨"odd.", Table.ofList [("ID_odd..Class", oddClass)]⟩),
     ("school", ⟨"school", Table.ofList
      [("ID_school.Course", ⟨"ID_school.Course", "uml:Class", "Course", [],
         [⟨"held", "ID_odd..Class", "1", "1"⟩], none⟩)]⟩)]

set_option maxRecDepth 100000 in
theorem load_oddDocument : (load oddDocument.toUTF8).result = .ok oddities := by
  unfold oddDocument
  apply load_ofList
  decide +kernel

/-- The definition of that record. -/
def oddDefinition : Definition where
  id := "ID_odd..Class"
  package := ""
  name := "class"
  kind := .record
  fields := [("first name", .boolean)]
  code := "class class(TypedDict, total=False):\n    first name: Literal['true', 'false']"

/-- The definition of the record that needs it. -/
def courseDefinition : Definition where
  id := "ID_school.Course"
  package := "school"
  name := "Course"
  kind := .record
  fields := [("held", .single { package := some "", name := "class" })]
  dependencies := ["ID_odd..Class"]
  code := "class Course(TypedDict, total=False):\n    held: .class"

theorem oddities_resolve : (oddities.resolve ["ID_school.Course"]).result =
    .ok [oddDefinition, courseDefinition] := by
  have hodd : oddities.define "ID_odd..Class" = .ok oddDefinition :=
    eq_ok_of_toOption (by decide +kernel)
  have hcourse : oddities.define "ID_school.Course" = .ok courseDefinition :=
    eq_ok_of_toOption (by decide +kernel)
  have hbelow : Walk oddities ["ID_school.Course"] {} courseDefinition.dependencies
      (.ok (({} : Progress).emit "ID_odd..Class" oddDefinition)) :=
    .emit (by simp) (by simp) hodd .done .done
  have hwalk : Walk oddities [] {} ["ID_school.Course"] (.ok _) :=
    .emit (by simp) (by simp) hcourse hbelow .done
  exact hwalk.resolve_eq_ok

/-- In each of the positions there is a name that is no identifier. -/
theorem oddities_not_identifiers : ∃ m ms, (load oddDocument.toUTF8).result = .ok m ∧
    (m.generate ["ID_school.Course"]).result = .ok ms ∧
    ms.get? "" = some ("from typing import Literal, TypedDict, Union\n\n\n" ++
      "class class(TypedDict, total=False):\n    first name: Literal['true', 'false']\n\n") ∧
    ms.get? "school" = some ("from typing import Literal, TypedDict, Union\nfrom . import \n\n\n" ++
      "class Course(TypedDict, total=False):\n    held: .class\n\n") ∧
    Spelled ms .module "" ∧ Spelled ms .sibling "" ∧ Spelled ms .definition "class" ∧
    Spelled ms .field "first name" ∧
    ∀ A : Source.Alphabet, A.isIdentifier "" = false ∧ A.isIdentifier "class" = false ∧
      A.isIdentifier "first name" = false := by
  have hms : (Modules.compose ([oddDefinition, courseDefinition].map (·.piece))).result =
      .ok (Table.ofList [("", "from typing import Literal, TypedDict, Union\n\n\n" ++
        "class class(TypedDict, total=False):\n    first name: Literal['true', 'false']\n\n"),
        ("school", "from typing import Literal, TypedDict, Union\nfrom . import \n\n\n" ++
        "class Course(TypedDict, total=False):\n    held: .class\n\n")]) :=
    eq_ok_of_toOption (by decide +kernel)
  refine ⟨oddities, _, load_oddDocument,
    Run.result_bind_eq_ok_iff.2 ⟨_, oddities_resolve, hms⟩, rfl, rfl, rfl,
    ⟨"school", _, rfl, by decide +kernel⟩, ⟨"", _, rfl, by decide +kernel⟩,
    ⟨"", _, rfl, by decide +kernel⟩, fun A => ⟨rfl, ?_, ?_⟩⟩
  · exact A.isIdentifier_of_mem_keywords (by decide)
  · rw [← Bool.not_eq_true]
    intro hname
    have hblank := A.isAlphanum_of_mem hname (c := ' ') (by decide) (by decide)
    exact absurd hblank (by decide)

end Model

end UmlTyping
