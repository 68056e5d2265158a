import UmlTyping.Proofs.Naming

/-!
# What records inherit from

A record that specialises an entry derives from the definition of that entry, by the name under
which it is in scope. The definition is there, and it stands before the record (`exists_parent`).
What kind it is of was never asked: a base is resolved like the type of a field, by name. So every
base is a record exactly if every reachable record of the model specialises a record
(`derivesFromRecords_iff`). Any other definition binds its name to no class to derive from.
-/

namespace UmlTyping

namespace Model

variable {m : Model} {roots : List Identifier} {ds : List Definition} {d parent : Definition}

/-- A record derives from the definition of the entry that it specialises, by the name of that, with
its package if that is another one. -/
def Inherits (m : Model) (d parent : Definition) : Prop :=
  ∃ r, d.base = some r ∧ m.BaseRefers d r parent.id ∧
    r = TypeRef.seenFrom d.package parent.package parent.name

/-- Every definition with a base derives from a record among the definitions. -/
def DerivesFromRecords (m : Model) (ds : List Definition) : Prop :=
  ∀ d ∈ ds, d.base ≠ none → ∃ parent ∈ ds, m.Inherits d parent ∧ parent.kind = .record

/-- Every record that the roots lead to specialises a record, if it specialises anything. -/
def SpecialisesRecords (m : Model) (roots : List Identifier) : Prop :=
  ∀ id e general, m.Reachable roots id → m.find? id = some e → e.tag = Kind.record.tag →
    e.generalization = some general → ∃ e', m.find? general = some e' ∧ e'.tag = Kind.record.tag

/-- What a definition derives from is defined before it. -/
theorem exists_parent (h : OrdersClosure m roots ds) {i : Nat} (hi : ds[i]? = some d)
    (hbase : d.base ≠ none) :
    ∃ (j : Nat) (parent : Definition), j < i ∧ ds[j]? = some parent ∧ m.Inherits d parent := by
  have hd : d ∈ ds := List.mem_of_getElem? hi
  obtain ⟨e, he, hdefined⟩ := h.definedAs hd
  obtain ⟨r, hr⟩ := Option.ne_none_iff_exists'.1 hbase
  have hreference : r ∈ d.references := List.mem_append_right _ (Option.mem_toList.2 hr)
  have hrecord := hdefined.record (kind_eq_record_of_mem_references hdefined hreference)
  obtain ⟨general, hgeneral, -, -⟩ := hrecord.exists_generalization hr
  have hrefers : m.BaseRefers d r general := ⟨e, he, hgeneral, hr⟩
  obtain ⟨hne, hpoints⟩ := hrefers.pointsTo hdefined he
  obtain ⟨e', package, he', hpackage, heq⟩ := hpoints.eq_seenFrom
  -- the entry is a dependency, so its definition has a place in front
  obtain ⟨j, parent, hj, hparent, rfl⟩ :=
    h.dependency_before i d hi general (hpoints.mem_dependencies hne)
  obtain ⟨hname, hown⟩ := h.name_package (List.mem_of_getElem? hparent) he' hpackage
  refine ⟨j, parent, hj, hparent, r, hr, hrefers, ?_⟩
  rw [heq, decide_eq_false hne, hname, hown]
  rfl

theorem Inherits.generalization_eq (h : m.Inherits d parent) {e : Entry}
    (he : m.find? d.id = some e) : e.generalization = some parent.id := by
  obtain ⟨r, -, ⟨e', he', hgeneral, -⟩, -⟩ := h
  cases he.symm.trans he'
  exact hgeneral

/-- Definitions derive from records exactly if their entries specialise records. -/
theorem derivesFromRecords_iff (h : OrdersClosure m roots ds) :
    m.DerivesFromRecords ds ↔ m.SpecialisesRecords roots := by
  constructor
  · intro hderives id e general hid he htag hgeneral
    obtain ⟨d, hd, rfl⟩ := List.mem_map.1 ((h.mem_iff id).2 hid)
    obtain ⟨e', he', hdefined⟩ := h.definedAs hd
    cases he.symm.trans he'
    obtain ⟨r, hbase, -, -⟩ := (hdefined.record (hdefined.kind_eq_iff.2 htag)).exists_base hgeneral
    obtain ⟨parent, hparent, hinherits, hkind⟩ := hderives d hd (by simp [hbase])
    cases hgeneral.symm.trans (hinherits.generalization_eq he)
    obtain ⟨e', he', hdefined'⟩ := h.definedAs hparent
    exact ⟨e', he', hdefined'.kind_eq_iff.1 hkind⟩
  · intro hspecialises d hd hbase
    obtain ⟨i, hi⟩ := List.getElem?_of_mem hd
    obtain ⟨j, parent, -, hj, hinherits⟩ := exists_parent h hi hbase
    have hparent : parent ∈ ds := List.mem_of_getElem? hj
    obtain ⟨e, he, hdefined⟩ := h.definedAs hd
    have hkind : d.kind = .record := by
      by_contra hplain
      exact hbase (hdefined.plain hplain).2.2
    obtain ⟨e', he', htag⟩ := hspecialises d.id e parent.id (h.reachable hd) he
      (hdefined.kind_eq_iff.1 hkind) (hinherits.generalization_eq he)
    obtain ⟨e₀, he₀, hdefined'⟩ := h.definedAs hparent
    cases he'.symm.trans he₀
    exact ⟨parent, hparent, hinherits, hdefined'.kind_eq_iff.2 htag⟩

/-- A definition with a base derives from one that stands before it, which is written as its kind
says. Those that definitions derive from are all records exactly if what the records of the model
specialise are. -/
theorem resolve_bases (hm : m.IsLoaded) (h : (m.resolve roots).result = .ok ds) :
    (∀ (i : Nat) (d : Definition), ds[i]? = some d → d.base ≠ none →
      ∃ (j : Nat) (parent : Definition) (e : Entry), j < i ∧ ds[j]? = some parent ∧
        m.Inherits d parent ∧ m.find? parent.id = some e ∧ e.tag = parent.kind.tag ∧
        parent.WrittenFor e) ∧
      (m.DerivesFromRecords ds ↔ m.SpecialisesRecords roots) := by
  have hclosure : OrdersClosure m roots ds := ordersClosure_of_resolve hm.coherent h
  refine ⟨?_, derivesFromRecords_iff hclosure⟩
  intro i d hi hbase
  obtain ⟨j, parent, hj, hparent, hinherits⟩ := exists_parent hclosure hi hbase
  obtain ⟨e, he, hcompile⟩ := hclosure.compiled parent (List.mem_of_getElem? hparent)
  have htag : e.tag = parent.kind.tag := (Entry.compile_eq_ok hcompile).kind_eq_iff.1 rfl
  exact ⟨j, parent, e, hj, hparent, hinherits, he, htag, Entry.writtenFor_of_compile hcompile⟩

theorem sample_bases : ∃ ds, (sample.resolve ["ID_flight.Node"]).result = .ok ds ∧
    (∀ (i : Nat) (d : Definition), ds[i]? = some d → d.base ≠ none →
      ∃ (j : Nat) (parent : Definition) (e : Entry), j < i ∧ ds[j]? = some parent ∧
        sample.Inherits d parent ∧ sample.find? parent.id = some e ∧ e.tag = parent.kind.tag ∧
        parent.WrittenFor e) ∧
    (sample.DerivesFromRecords ds ↔ sample.SpecialisesRecords ["ID_flight.Node"]) := by
  obtain ⟨ds, hds, -⟩ := sample_resolve_node
  exact ⟨ds, hds, resolve_bases sample_isLoaded hds⟩

/-- A record that specialises an enumeration. -/
def paintDocument : String :=
  "<XMI><Model>
    <packagedElement type='uml:Package' name='road'>
      <packagedElement type='uml:Enumeration' id='ID_road.Paint' name='Paint'>
        <ownedLiteral name='red'/>
      </packagedElement>
      <packagedElement type='uml:Class' id='ID_road.Car' name='Car'>
        <generalization general='ID_road.Paint'/>
      </packagedElement>
    </packagedElement>
  </Model></XMI>"

/-- The model that the document holds. -/
def paints : Model where
  packages := Table.ofList
    [("road", ⟨"road", Table.ofList
      [("ID_road.Paint", ⟨"ID_road.Paint", "uml:Enumeration", "Paint", ["red"], [], none⟩),
       ("ID_road.Car", ⟨"ID_road.Car", "uml:Class", "Car", [], [], some "ID_road.Paint"⟩)]⟩)]

set_option maxRecDepth 100000 in
theorem load_paintDocument : (load paintDocument.toUTF8).result = .ok paints := by
  unfold paintDocument
  apply load_ofList
  decide +kernel

/-- The definition of the enumeration. -/
def paint : Definition where
  id := "ID_road.Paint"
  package := "road"
  name := "Paint"
  kind := .enumeration
  code := "Paint = Literal[\"red\"]"

/-- The definition of the record. -/
def paintedCar : Definition where
  id := "ID_road.Car"
  package := "road"
  name := "Car"
  kind := .record
  dependencies := ["ID_road.Paint"]
  base := some ⟨none, "Paint", false⟩
  code := "class Car(Paint): ..."

theorem paints_resolve : (paints.resolve ["ID_road.Car"]).result = .ok [paint, paintedCar] := by
  have hpaint : paints.define "ID_road.Paint" = .ok paint := eq_ok_of_toOption (by decide +kernel)
  have hcar : paints.define "ID_road.Car" = .ok paintedCar := eq_ok_of_toOption (by decide +kernel)
  have hwalk : Walk paints [] {} ["ID_road.Car"] (.ok _) :=
    .emit (by simp) (by simp) hcar (.emit (by simp) (by simp) hpaint .done .done) .done
  exact hwalk.resolve_eq_ok

/-- A class is derived from what is no class. -/
theorem paintedCar_base_not_record : ∃ m, (load paintDocument.toUTF8).result = .ok m ∧
    (m.resolve ["ID_road.Car"]).result = .ok [paint, paintedCar] ∧
    m.Inherits paintedCar paint ∧ paint.kind = .enumeration ∧
    ¬ m.DerivesFromRecords [paint, paintedCar] := by
  have hbase : paints.BaseRefers paintedCar ⟨none, "Paint", false⟩ "ID_road.Paint" :=
    ⟨⟨"ID_road.Car", "uml:Class", "Car", [], [], some "ID_road.Paint"⟩, by decide, rfl, rfl⟩
  refine ⟨paints, load_paintDocument, paints_resolve, ⟨_, rfl, hbase, rfl⟩, rfl, ?_⟩
  intro hderives
  obtain ⟨parent, hparent, hinherits, hkind⟩ :=
    hderives paintedCar (by simp) (Option.some_ne_none _)
  have hid := hinherits.generalization_eq (e := ⟨"ID_road.Car", "uml:Class", "Car", [], [],
    some "ID_road.Paint"⟩) (by decide)
  simp only [List.mem_cons, List.not_mem_nil, or_false] at hparent
  rcases hparent with rfl | rfl
  · cases hkind
  · exact absurd hid (by decide)

end Model

end UmlTyping
