import UmlTyping.Proofs.Declarations

/-!
# Names that modules bind

The source text of a generated module binds what it imports and what it defines, each entry under
its name and with a helper if it has one (`Presents.boundNames_eq`). Whether it binds a name twice is
therefore a matter of the names in the model, which nothing compares: packages that end in the same
segment share a module, and their entries may have the same name (`homonyms_not_nodup`).
-/

namespace UmlTyping

/-- The names that source text binds outside of classes. If names are identifiers and literals stand
for themselves, each line of generated source is what it looks like, and nothing else binds one. -/
def Source.boundNames (content : String) : List String :=
  ((namesIn content.toList).filter (·.1 ≠ .field)).map (·.2)

theorem Entry.map_filter_shownNames (e : Entry) :
    (e.shownNames.filter (·.1 ≠ .field)).map (·.2) = e.boundNames := by
  have hbound : (e.boundNames.map ((.definition, ·) : String → Source.NamePosition × String)).filter
      (·.1 ≠ .field) = e.boundNames.map (.definition, ·) := by
    refine List.filter_eq_self.2 (List.forall_mem_map.2 fun name _ => ?_)
    rfl
  have hfields : (if e.hasClassFields then (e.attributes.map (·.name)).map (.field, ·) else []).filter
      (fun x : Source.NamePosition × String => x.1 ≠ .field) = [] := by
    split <;> simp
  rw [shownNames, List.filter_append, hbound, hfields, List.append_nil, List.map_map]
  exact List.map_id _

namespace Model

variable {m : Model} {roots : List Identifier} {ms : Modules} {p content : String}
  {imports : List String} {es : List Entry}

/-- The text of a module binds the names of what it imports and of its entries, in that order. -/
theorem Presents.boundNames_eq (h : m.Presents roots p content imports es) (hm : m.Coherent)
    (hlegible : m.Legible roots) :
    Source.boundNames content = Modules.boundNames imports es := by
  have hentries : ((es.flatMap (·.shownNames)).filter (·.1 ≠ .field)).map (·.2) =
      es.flatMap (·.boundNames) := by
    rw [List.filter_flatMap, List.map_flatMap]
    exact List.flatMap_congr fun e _ => e.map_filter_shownNames
  unfold Source.boundNames Modules.boundNames
  rw [h.namesIn_eq hm hlegible, List.filter_append, List.filter_append, List.map_append,
    List.map_append, hentries]
  simp [List.filter_map, Function.comp_def]

/-- A generated module imports the packages that its package needs and defines the entries that the
roots lead to in it. Their names are distinct exactly if they leave each other alone, and no two
definitions share package and name exactly if no two entries do. If names are identifiers and
literals stand for themselves, these are the names that the source text binds. -/
theorem generate_boundNames (hm : m.IsLoaded) (h : (m.generate roots).result = .ok ms) :
    ∃ ds, (m.resolve roots).result = .ok ds ∧
      (ds.Pairwise (fun d d' => ¬ (d.package = d'.package ∧ d.name = d'.name)) ↔
        ∀ p, m.NamesDiffer roots p) ∧
      ∀ p content, ms.get? p = some content → ∃ imports es,
        m.Presents roots p content imports es ∧
          ((Modules.boundNames imports es).Nodup ↔ m.NamesApart roots p) ∧
          ∀ A, m.NamesSpelled A roots → m.LiteralsPlain roots →
            Source.boundNames content = Modules.boundNames imports es := by
  obtain ⟨ds, hds, hclosure, hcomposed⟩ := composedOf_of_generate hm.coherent h
  refine ⟨ds, hds, pairwise_names_iff hclosure hm.coherent, ?_⟩
  intro p content hcontent
  obtain ⟨imports, es, hpresents⟩ := exists_presents hclosure hm.coherent hcomposed hcontent
  refine ⟨imports, es, hpresents, hpresents.nodup_iff, fun A hspelled hliterals => ?_⟩
  exact hpresents.boundNames_eq hm.coherent (hspelled.legible hliterals)

theorem sample_boundNames : ∃ ds ms, (sample.generate ["ID_flight.Node"]).result = .ok ms ∧
    (sample.resolve ["ID_flight.Node"]).result = .ok ds ∧
    (ds.Pairwise (fun d d' => ¬ (d.package = d'.package ∧ d.name = d'.name)) ↔
      ∀ p, sample.NamesDiffer ["ID_flight.Node"] p) ∧
    ∀ p content, ms.get? p = some content →
      ((Source.boundNames content).Nodup ↔ sample.NamesApart ["ID_flight.Node"] p) := by
  obtain ⟨ds, hds, -⟩ := sample_resolve_node
  obtain ⟨ms, hms, -⟩ := exists_generate sample_isLoaded.coherent hds
  obtain ⟨ds', hds', hpairwise, hnames⟩ := generate_boundNames sample_isLoaded hms
  refine ⟨ds', ms, hms, hds', hpairwise, fun p content hcontent => ?_⟩
  obtain ⟨imports, es, -, hnodup, hbound⟩ := hnames p content hcontent
  rw [hbound .ascii sample_namesSpelled sample_literalsPlain]
  exact hnodup

/-- Two packages that end in the same segment, each with an entry of the same name. -/
def homonymDocument : String :=
  "<XMI><Model>
    <packagedElement type='uml:Package' name='common'>
      <packagedElement type='uml:PrimitiveType' id='ID_common.Text' name='Text'/>
    </packagedElement>
    <packagedElement type='uml:Package' name='old.common'>
      <packagedElement type='uml:PrimitiveType' id='ID_old.common.Text' name='Text'/>
    </packagedElement>
  </Model></XMI>"

/-- The model that the document holds. -/
def homonyms : Model where
  packages := Table.ofList
    [("common", ⟨"common", Table.ofList
      [("ID_common.Text", ⟨"ID_common.Text", "uml:PrimitiveType", "Text", [], [], none⟩)]⟩),
     ("old.common", ⟨"old.common", Table.ofList
      [("ID_old.common.Text",
        ⟨"ID_old.common.Text", "uml:PrimitiveType", "Text", [], [], none⟩)]⟩)]

set_option maxRecDepth 100000 in
theorem load_homonymDocument : (load homonymDocument.toUTF8).result = .ok homonyms := by
  unfold homonymDocument
  apply load_ofList
  decide +kernel

/-- The definition of either entry. -/
def homonym (id : Identifier) : Definition where
  id := id
  package := "common"
  name := "Text"
  kind := .primitive
  code := "Text = str"

theorem homonyms_resolve : (homonyms.resolve ["ID_common.Text", "ID_old.common.Text"]).result =
    .ok [homonym "ID_common.Text", homonym "ID_old.common.Text"] := by
  have hfirst : homonyms.define "ID_common.Text" = .ok (homonym "ID_common.Text") :=
    eq_ok_of_toOption (by decide +kernel)
  have hsecond : homonyms.define "ID_old.common.Text" = .ok (homonym "ID_old.common.Text") :=
    eq_ok_of_toOption (by decide +kernel)
  have hwalk : Walk homonyms [] {} ["ID_common.Text", "ID_old.common.Text"] (.ok _) :=
    .emit (by simp) (by simp) hfirst .done
      (.emit (by simp [Progress.emit]) (by simp) hsecond .done .done)
  exact hwalk.resolve_eq_ok

/-- Two definitions of one module have the same name, and the module binds it twice. -/
theorem homonyms_not_nodup : ∃ m ms ds content, (load homonymDocument.toUTF8).result = .ok m ∧
    (m.resolve ["ID_common.Text", "ID_old.common.Text"]).result = .ok ds ∧
    ds.map (fun d => (d.package, d.name)) = [("common", "Text"), ("common", "Text")] ∧
    (m.generate ["ID_common.Text", "ID_old.common.Text"]).result = .ok ms ∧
    ms.get? "common" = some content ∧
    content = "from typing import Literal, TypedDict, Union\n\n\nText = str\n\nText = str\n\n" ∧
    Source.boundNames content = ["Literal", "TypedDict", "Union", "Text", "Text"] := by
  have hms : (Modules.compose ([homonym "ID_common.Text", homonym "ID_old.common.Text"].map
      (·.piece))).result = .ok (Table.ofList [("common",
        "from typing import Literal, TypedDict, Union\n\n\nText = str\n\nText = str\n\n")]) :=
    eq_ok_of_toOption (by decide +kernel)
  refine ⟨homonyms, _, _, _, load_homonymDocument, homonyms_resolve, rfl,
    Run.result_bind_eq_ok_iff.2 ⟨_, homonyms_resolve, hms⟩, rfl, rfl, ?_⟩
  decide +kernel

end Model

end UmlTyping
