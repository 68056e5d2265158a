import Mathlib.Data.List.Pairwise
import UmlTyping.Proofs.Loading

/-!
# Looking up entries

What a package holds is reached in three ways: by the name of the package and the identifier, by the
identifier alone, which is trusted to encode the package, and by the start of the name, through a
listing of all that is held. In a loaded model they fit together (`IsLoaded.lookups`), because
packages are filed under their names and entries under their identifiers.

* `Coherent.find?_eq_some_iff`: an identifier leads to what is held where it says;
* `Coherent.holdings_ascending`: the listing goes by package and identifier, so nothing is in it
  twice;
* `Holds.locate?_eq_some_iff`: what is listed is found again at its own place, or not there.
-/

namespace UmlTyping.Model

variable {m : Model} {name : String} {id : Identifier} {e : Entry}

/-! ## What packages hold -/

/-- The package with a name holds an entry, under the identifier of the entry. -/
def Holds (m : Model) (name : String) (e : Entry) : Prop :=
  ∃ package, m.package? name = some package ∧ package.entries.get? e.id = some e

/-- The entries of all packages, each with the name of its package. -/
def holdings (m : Model) : List (String × Entry) :=
  m.packages.entries.flatMap fun p => p.2.entries.values.map fun e => (p.1, e)

/-- The list goes by the name of the package, and then by the identifier. No pair of them is there
twice. -/
def Ascends (listed : List (String × Entry)) : Prop :=
  (listed.map fun x => (x.1, x.2.id)).Pairwise (Prod.Lex (· < ·) (· < ·))

lemma mem_values_iff {entries : Table Entry} (h : FiledById entries) :
    e ∈ entries.values ↔ entries.get? e.id = some e := by
  constructor
  · intro he
    obtain ⟨⟨key, value⟩, hmem, heq⟩ := List.mem_map.1 he
    have hget : entries.get? key = some value := Table.get?_eq_some_iff.2 hmem
    have hkey : value.id = key := h key value hget
    rw [← heq, hkey]
    exact hget
  · intro he
    exact List.mem_map.2 ⟨(e.id, e), Table.get?_eq_some_iff.1 he, rfl⟩

/-- Entries are listed in the order of their identifiers. -/
lemma values_pairwise {entries : Table Entry} (h : FiledById entries) :
    entries.values.Pairwise fun e e' => e.id < e'.id := by
  have hkey : ∀ x ∈ entries.entries, x.2.id = x.1 := by
    intro x hx
    exact h x.1 x.2 (Table.get?_eq_some_iff.2 hx)
  unfold Table.values
  rw [List.pairwise_map]
  apply entries.ascending.imp_of_mem
  intro x y hx hy hlt
  rw [hkey x hx, hkey y hy]
  exact hlt

namespace Coherent

variable (hm : m.Coherent)

include hm

lemma filedById {p : String × Package} (hp : p ∈ m.packages.entries) :
    FiledById p.2.entries := by
  have hget : m.packages.get? p.1 = some p.2 := Table.get?_eq_some_iff.2 hp
  exact (hm p.1 p.2 hget).2

theorem mem_holdings_iff : (name, e) ∈ m.holdings ↔ m.Holds name e := by
  unfold holdings Holds
  rw [List.mem_flatMap]
  constructor
  · rintro ⟨p, hp, hmem⟩
    obtain ⟨e', he', heq⟩ := List.mem_map.1 hmem
    cases heq
    have hget : m.package? p.1 = some p.2 := Table.get?_eq_some_iff.2 hp
    exact ⟨p.2, hget, (mem_values_iff (hm.filedById hp)).1 he'⟩
  · rintro ⟨package, hpackage, he⟩
    have hp : (name, package) ∈ m.packages.entries := Table.get?_eq_some_iff.1 hpackage
    have hvalue : e ∈ package.entries.values := (mem_values_iff (hm.filedById hp)).2 he
    exact ⟨_, hp, List.mem_map_of_mem hvalue⟩

/-- Packages come in the order of their names, and their entries in that of the identifiers. -/
theorem holdings_ascending : Ascends m.holdings := by
  unfold Ascends holdings
  rw [List.pairwise_map, List.pairwise_flatMap]
  constructor
  · intro p hp
    rw [List.pairwise_map]
    apply (values_pairwise (hm.filedById hp)).imp
    intro e e' hlt
    exact Prod.Lex.right _ hlt
  · apply m.packages.ascending.imp
    intro p q hlt x hx y hy
    obtain ⟨e, -, rfl⟩ := List.mem_map.1 hx
    obtain ⟨e', -, rfl⟩ := List.mem_map.1 hy
    exact Prod.Lex.left _ _ hlt

end Coherent

/-! ## By identifier -/

/-- The entry that an identifier leads to, with the name of the package that it was found in. -/
def locate? (m : Model) (id : Identifier) : Option (String × Entry) := do
  let name ← id.qualifiedPackage?
  let package ← m.package? name
  let e ← package.entries.get? id
  pure (name, e)

theorem find?_eq_map_locate? (m : Model) (id : Identifier) :
    m.find? id = (m.locate? id).map (·.2) := by
  unfold locate? find?
  cases id.qualifiedPackage? with
  | none => rfl
  | some name =>
    simp only [bind, Option.bind_some]
    cases m.package? name with
    | none => rfl
    | some package =>
      simp only [Option.bind_some]
      cases package.entries.get? id with
      | none => rfl
      | some e => rfl

/-- What a package holds is found by its identifier in this package, if the identifier encodes it. -/
theorem Holds.locate?_eq_some_iff (h : m.Holds name e) :
    m.locate? e.id = some (name, e) ↔ e.id.qualifiedPackage? = some name := by
  unfold locate?
  simp only [bind, pure, Option.bind_eq_some_iff, Option.some.injEq, Prod.mk.injEq]
  constructor
  · rintro ⟨name', hname', package, -, e', -, rfl, rfl⟩
    exact hname'
  · intro hname
    obtain ⟨package, hpackage, he⟩ := h
    exact ⟨name, hname, package, hpackage, e, he, rfl, rfl⟩

/-- An identifier leads to the entry that is held under it by the package it encodes. -/
theorem Coherent.find?_eq_some_iff (hm : m.Coherent) : m.find? id = some e ↔
    e.id = id ∧ ∃ name, id.qualifiedPackage? = some name ∧ m.Holds name e := by
  unfold find? Holds
  simp only [bind, Option.bind_eq_some_iff]
  constructor
  · rintro ⟨name, hname, package, hpackage, he⟩
    have hid : e.id = id := (hm name package hpackage).2 id e he
    exact ⟨hid, name, hname, package, hpackage, hid ▸ he⟩
  · rintro ⟨rfl, name, hname, package, hpackage, he⟩
    exact ⟨name, hname, package, hpackage, he⟩

/-! ## By the start of the name -/

/-- The entries whose names start with a text, each with the name of its package. -/
def listed (m : Model) (start : String) : List (String × Entry) :=
  m.holdings.filter fun x => start.toList.isPrefixOf x.2.name.toList

theorem findByName_eq_map_listed (m : Model) (start : String) :
    m.findByName start = (m.listed start).map (·.2) := by
  have hentries : m.entries = m.holdings.map (·.2) := by
    unfold entries holdings Table.values
    rw [List.map_flatMap, List.flatMap_map]
    simp only [List.map_map, Function.comp_def]
  unfold findByName listed
  rw [hentries, List.filter_map]
  rfl

/-- What is listed for a start of names, and what comes of looking up its identifiers. -/
structure ListsFor (m : Model) (start : String) (listed : List (String × Entry)) : Prop where
  entries : m.findByName start = listed.map (·.2)
  /-- The list goes by package and identifier, so each holding is there once. -/
  ascending : Ascends listed
  /-- Just what is held by some package and has a name with this start is there. -/
  mem_iff : ∀ name e, (name, e) ∈ listed ↔ m.Holds name e ∧ start.toList <+: e.name.toList
  /-- An entry is found by its identifier exactly if it is held by the package that this encodes. -/
  find?_iff : ∀ name e, (name, e) ∈ listed →
    (m.find? e.id = some e ↔ ∃ q, e.id.qualifiedPackage? = some q ∧ m.Holds q e)
  /-- It is found where it is listed exactly if that is the package that its identifier encodes. -/
  locate?_iff : ∀ name e, (name, e) ∈ listed →
    (m.locate? e.id = some (name, e) ↔ e.id.qualifiedPackage? = some name)

theorem Coherent.listsFor (hm : m.Coherent) (start : String) :
    m.ListsFor start (m.listed start) := by
  have hmem : ∀ name e, (name, e) ∈ m.listed start ↔
      m.Holds name e ∧ start.toList <+: e.name.toList := by
    intro name e
    unfold listed
    rw [List.mem_filter, hm.mem_holdings_iff, List.isPrefixOf_iff_prefix]
  refine ⟨findByName_eq_map_listed m start, ?_, hmem, ?_, ?_⟩
  · have hsub : ((m.listed start).map fun x => (x.1, x.2.id)).Sublist
        (m.holdings.map fun x => (x.1, x.2.id)) := (List.filter_sublist).map _
    exact hm.holdings_ascending.sublist hsub
  · intro name e _
    rw [hm.find?_eq_some_iff]
    exact and_iff_right rfl
  · intro name e he
    exact ((hmem name e).1 he).1.locate?_eq_some_iff

/-- A loaded model files every package under its name and every entry under its identifier. An
identifier leads to an entry exactly if it is that of the entry and encodes a package that holds it.
For every start of names, the listing has each holding with such a name once, by package and
identifier, and an entry of it is found by its identifier exactly if it is held where that says. -/
theorem IsLoaded.lookups (hm : m.IsLoaded) :
    m.Coherent ∧
      (∀ id e, m.find? id = some e ↔
        e.id = id ∧ ∃ name, id.qualifiedPackage? = some name ∧ m.Holds name e) ∧
      (∀ id, m.find? id = (m.locate? id).map (·.2)) ∧
      ∀ start, m.ListsFor start (m.listed start) := by
  have hcoherent : m.Coherent := hm.coherent
  refine ⟨hcoherent, ?_, find?_eq_map_locate? m, ?_⟩
  · intro id e
    exact hcoherent.find?_eq_some_iff
  · intro start
    exact hcoherent.listsFor start

/-- Two packages with an entry of one identifier, which encodes the second of them. -/
def twinDocument : String :=
  "<XMI><Model>
    <packagedElement type='uml:Package' name='PrimitiveTypes'>
      <packagedElement type='uml:PrimitiveType' id='ID_flight.Plan' name='Plan'/>
    </packagedElement>
    <packagedElement type='uml:Package' name='flight'>
      <packagedElement type='uml:Class' id='ID_flight.Plan' name='Plan'/>
    </packagedElement>
  </Model></XMI>"

/-- The entry of either package. -/
def twin (tag : String) : Entry := ⟨"ID_flight.Plan", tag, "Plan", [], [], none⟩

/-- The model that the document holds. -/
def twins : Model where
  packages := Table.ofList
    [("PrimitiveTypes", ⟨"PrimitiveTypes",
       Table.ofList [("ID_flight.Plan", twin "uml:PrimitiveType")]⟩),
     ("flight", ⟨"flight", Table.ofList [("ID_flight.Plan", twin "uml:Class")]⟩)]

set_option maxRecDepth 100000 in
theorem load_twinDocument : (load twinDocument.toUTF8).result = .ok twins := by
  unfold twinDocument
  apply load_ofList
  decide +kernel

theorem twins_holds : twins.Holds "PrimitiveTypes" (twin "uml:PrimitiveType") ∧
    twins.Holds "flight" (twin "uml:Class") :=
  ⟨⟨_, rfl, rfl⟩, ⟨_, rfl, rfl⟩⟩

/-- Both entries are listed for the start of their name, and the identifier leads to the second. -/
theorem twins_lookups : twins.IsLoaded ∧ Ascends (twins.listed "Pl") ∧
    ("PrimitiveTypes", twin "uml:PrimitiveType") ∈ twins.listed "Pl" ∧
    ("flight", twin "uml:Class") ∈ twins.listed "Pl" ∧
    twins.find? "ID_flight.Plan" = some (twin "uml:Class") ∧
    twins.locate? "ID_flight.Plan" ≠ some ("PrimitiveTypes", twin "uml:PrimitiveType") := by
  have hloaded : twins.IsLoaded := ⟨_, load_twinDocument⟩
  obtain ⟨-, hfind, -, hlists⟩ := IsLoaded.lookups hloaded
  have hpackage : Identifier.qualifiedPackage? "ID_flight.Plan" = some "flight" := by decide +kernel
  have hscalar : ("PrimitiveTypes", twin "uml:PrimitiveType") ∈ twins.listed "Pl" :=
    ((hlists "Pl").mem_iff _ _).2 ⟨twins_holds.1, by decide⟩
  have hrecord : ("flight", twin "uml:Class") ∈ twins.listed "Pl" :=
    ((hlists "Pl").mem_iff _ _).2 ⟨twins_holds.2, by decide⟩
  refine ⟨hloaded, (hlists "Pl").ascending, hscalar, hrecord, ?_, ?_⟩
  · exact (hfind _ _).2 ⟨rfl, "flight", hpackage, twins_holds.2⟩
  · intro hfound
    have hencoded := ((hlists "Pl").locate?_iff _ _ hscalar).1 hfound
    exact absurd (hpackage.symm.trans hencoded) (by decide)

end UmlTyping.Model
