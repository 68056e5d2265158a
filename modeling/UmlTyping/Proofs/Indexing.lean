import UmlTyping.Proofs.Loading

/-!
# Packages and entries that are indexed

A document is walked in its own order, each package before those that are nested in it
(`Xmi.packagesIn`), and loading files one package after the other (`result_indexTop`). So of several
packages with one name the last one stands, and the entries of the others are lost.

* `mem_packagesIn_iff`: the walk comes to the packages that the document leads to through packages;
* `Entry.ofElement_eq_ok_iff`: what an entry takes from its element;
* `package?_last`: what is filed under a name is what the last package of that name describes.
-/

namespace UmlTyping

/-! ## What an element describes -/

/-- An attribute is as an element says. A bound that is not stated is the default. -/
structure Attribute.DescribedBy (a : Attribute) (o : Xmi.OwnedAttribute) : Prop where
  name : o.name = some a.name
  typeRef : o.typeRef = some a.typeRef
  lower : a.lower = o.lower.getD defaultBound
  upper : a.upper = o.upper.getD defaultBound

/-- An entry is as an element says. -/
structure Entry.DescribedBy (e : Entry) (c : Xmi.Element) : Prop where
  id : c.id = some e.id
  tag : c.tag = some e.tag
  name : c.name = some e.name
  literals : c.literals = e.literals.map some
  attributes : List.Forall₂ (fun o a => Attribute.DescribedBy a o) c.attributes e.attributes
  generalization : c.generalizations = e.generalization.toList.map some

theorem require_eq_ok_iff {field : Field} {part : Option String} {value : String} :
    require field part = .ok value ↔ part = some value := by
  cases part with
  | none => simp [require]
  | some v => simp [require]

theorem Attribute.ofOwned_eq_ok_iff {o : Xmi.OwnedAttribute} {a : Attribute} :
    Attribute.ofOwned o = .ok a ↔ a.DescribedBy o := by
  unfold Attribute.ofOwned
  rw [bind_eq_ok_iff]
  constructor
  · rintro ⟨name, hname, h⟩
    rcases bind_eq_ok_iff.1 h with ⟨typeRef, htype, h⟩
    cases h
    exact ⟨require_eq_ok_iff.1 hname, require_eq_ok_iff.1 htype, rfl, rfl⟩
  · rintro ⟨hname, htype, hlower, hupper⟩
    refine ⟨a.name, require_eq_ok_iff.2 hname, bind_eq_ok_iff.2 ⟨a.typeRef, ?_, ?_⟩⟩
    · exact require_eq_ok_iff.2 htype
    · rw [← hlower, ← hupper]
      rfl

theorem mapM_require_eq_ok_iff {field : Field} {parts : List (Option String)}
    {values : List String} : parts.mapM (require field) = .ok values ↔ parts = values.map some := by
  rw [mapM_eq_ok_iff]
  have hparts : List.Forall₂ (fun part value => require field part = .ok value) parts values ↔
      List.Forall₂ (fun part value => part = some value) parts values := by
    refine ⟨List.Forall₂.imp fun _ _ => require_eq_ok_iff.1,
      List.Forall₂.imp fun _ _ => require_eq_ok_iff.2⟩
  rw [hparts, ← List.forall₂_map_right_iff, List.forall₂_eq_eq_eq]

theorem generalizationOf_eq_ok_iff {id : Identifier} {parts : List (Option String)}
    {general : Option Identifier} :
    generalizationOf id parts = .ok general ↔ parts = general.toList.map some := by
  match parts with
  | [] =>
    cases general with
    | none => simp [generalizationOf]
    | some g => simp [generalizationOf]
  | first :: others =>
    unfold generalizationOf
    rw [bind_eq_ok_iff]
    constructor
    · rintro ⟨g, hg, h⟩
      rw [require_eq_ok_iff] at hg
      split at h
      next hothers =>
        cases h
        rw [hg, hothers]
        rfl
      · cases h
    · intro h
      cases general with
      | none => cases h
      | some g =>
        cases h
        exact ⟨g, rfl, rfl⟩

theorem Entry.ofElement_eq_ok_iff {c : Xmi.Element} {e : Entry} :
    Entry.ofElement c = .ok e ↔ e.DescribedBy c := by
  have hattributes : ∀ attributes : List Attribute,
      c.attributes.mapM Attribute.ofOwned = .ok attributes ↔
        List.Forall₂ (fun o a => Attribute.DescribedBy a o) c.attributes attributes := by
    intro attributes
    rw [mapM_eq_ok_iff]
    refine ⟨List.Forall₂.imp fun _ _ => Attribute.ofOwned_eq_ok_iff.1,
      List.Forall₂.imp fun _ _ => Attribute.ofOwned_eq_ok_iff.2⟩
  constructor
  · intro h
    rcases bind_eq_ok_iff.1 h with ⟨id, hid, h⟩
    rcases bind_eq_ok_iff.1 h with ⟨tag, htag, h⟩
    rcases bind_eq_ok_iff.1 h with ⟨name, hname, h⟩
    rcases bind_eq_ok_iff.1 h with ⟨literals, hliterals, h⟩
    rcases bind_eq_ok_iff.1 h with ⟨attributes, hattrs, h⟩
    rcases bind_eq_ok_iff.1 h with ⟨general, hgeneral, h⟩
    cases h
    exact ⟨require_eq_ok_iff.1 hid, require_eq_ok_iff.1 htag, require_eq_ok_iff.1 hname,
      mapM_require_eq_ok_iff.1 hliterals, (hattributes _).1 hattrs,
      generalizationOf_eq_ok_iff.1 hgeneral⟩
  · rintro ⟨hid, htag, hname, hliterals, hattrs, hgeneral⟩
    unfold Entry.ofElement
    rw [require_eq_ok_iff.2 hid, require_eq_ok_iff.2 htag, require_eq_ok_iff.2 hname,
      mapM_require_eq_ok_iff.2 hliterals, (hattributes _).2 hattrs]
    show generalizationOf e.id c.generalizations >>= _ = _
    rw [generalizationOf_eq_ok_iff.2 hgeneral]
    rfl

/-- An element describes one entry. -/
theorem Entry.DescribedBy.unique {e e' : Entry} {c : Xmi.Element} (h : e.DescribedBy c)
    (h' : e'.DescribedBy c) : e = e' := by
  rw [← Entry.ofElement_eq_ok_iff] at h h'
  exact Except.ok.inj (h.symm.trans h')

/-- What describes an entry is not anonymous. -/
theorem Entry.DescribedBy.isAnonymous_eq_false {e : Entry} {c : Xmi.Element}
    (h : e.DescribedBy c) : c.isAnonymous = false := by
  simp [Xmi.Element.isAnonymous, h.id]

/-! ## The packages of a document -/

namespace Xmi

mutual

/-- An element, and behind it the packages that it leads to, in document order. -/
def Element.packages : Element → List Element
  | ⟨id, tag, name, elements, attributes, literals, generalizations⟩ =>
    ⟨id, tag, name, elements, attributes, literals, generalizations⟩ :: packagesIn elements

/-- The packages that elements lead to, in document order. -/
def packagesIn : List Element → List Element
  | [] => []
  | e :: rest => if e.isPackage then e.packages ++ packagesIn rest else packagesIn rest

end

/-- What stands in a package and is no package. -/
def Element.members (p : Element) : List Element := p.elements.filter (!·.isPackage)

/-- A package is indexed unless all that it holds is packages. -/
def Element.IsIndexed (p : Element) : Prop := p.members ≠ [] ∨ p.elements = []

/-- The packages that a document leads to through packages only. -/
inductive Document.Reaches (d : Document) : Element → Prop
  | top {e : Element} : e ∈ d.elements → e.isPackage = true → Reaches d e
  | nested {p e : Element} : Reaches d p → e ∈ p.elements → e.isPackage = true → Reaches d e

/-- The package `p` is the last one with a name that is indexed. -/
def IsLastNamed (ps : List Element) (name : String) (p : Element) : Prop :=
  p.IsIndexed ∧ p.name = some name ∧ ∃ before after, ps = before ++ p :: after ∧
    ∀ q ∈ after, q.IsIndexed → q.name ≠ some name

variable {p e : Element} {elements ps : List Element} {name : String}

theorem Element.packages_eq (e : Element) : e.packages = e :: packagesIn e.elements := by
  rcases e with ⟨_, _, _, _, _, _, _⟩
  rw [Element.packages]

theorem mem_packagesIn_of_mem (he : e ∈ elements) (hpackage : e.isPackage = true) :
    e ∈ packagesIn elements := by
  induction elements with
  | nil => cases he
  | cons c rest ih =>
    rw [packagesIn]
    rcases List.mem_cons.1 he with rfl | he
    · rw [if_pos hpackage, e.packages_eq]
      simp
    · split
      · exact List.mem_append_right _ (ih he)
      · exact ih he

mutual

/-- What the walk below an element comes to is in each set that holds the element and, with a
package, the packages that stand in it. -/
theorem Element.packages_subset {s : Element → Prop}
    (hs : ∀ p e, s p → e ∈ p.elements → e.isPackage = true → s e) (c : Element) (hc : s c) :
    ∀ e ∈ c.packages, s e := by
  rcases c with ⟨id, tag, name, elements, attributes, literals, generalizations⟩
  rw [Element.packages, List.forall_mem_cons]
  refine ⟨hc, packagesIn_subset hs elements fun e he hpackage => ?_⟩
  exact hs _ e hc he hpackage

theorem packagesIn_subset {s : Element → Prop}
    (hs : ∀ p e, s p → e ∈ p.elements → e.isPackage = true → s e) (elements : List Element)
    (htop : ∀ e ∈ elements, e.isPackage = true → s e) : ∀ e ∈ packagesIn elements, s e := by
  match elements with
  | [] => simp [packagesIn]
  | c :: rest =>
    rw [List.forall_mem_cons] at htop
    rw [packagesIn]
    split
    next hpackage =>
      rw [List.forall_mem_append]
      exact ⟨Element.packages_subset hs c (htop.1 hpackage), packagesIn_subset hs rest htop.2⟩
    · exact packagesIn_subset hs rest htop.2

end

mutual

/-- With a package the walk comes to those that stand in it. -/
theorem Element.mem_packages_nested (c : Element) (hp : p ∈ c.packages) (he : e ∈ p.elements)
    (hpackage : e.isPackage = true) : e ∈ c.packages := by
  rcases c with ⟨id, tag, name, elements, attributes, literals, generalizations⟩
  rw [Element.packages] at hp ⊢
  apply List.mem_cons_of_mem
  rcases List.mem_cons.1 hp with rfl | hp
  · exact mem_packagesIn_of_mem he hpackage
  · exact mem_packagesIn_nested elements hp he hpackage

theorem mem_packagesIn_nested (elements : List Element) (hp : p ∈ packagesIn elements)
    (he : e ∈ p.elements) (hpackage : e.isPackage = true) : e ∈ packagesIn elements := by
  match elements with
  | [] =>
    rw [packagesIn] at hp
    cases hp
  | c :: rest =>
    rw [packagesIn] at hp ⊢
    split at hp
    next hc =>
      rw [if_pos hc, List.mem_append]
      rcases List.mem_append.1 hp with hp | hp
      · exact Or.inl (Element.mem_packages_nested c hp he hpackage)
      · exact Or.inr (mem_packagesIn_nested rest hp he hpackage)
    next hc =>
      rw [if_neg hc]
      exact mem_packagesIn_nested rest hp he hpackage

end

theorem mem_packagesIn_iff {d : Document} : e ∈ packagesIn d.elements ↔ d.Reaches e := by
  constructor
  · intro he
    have hclosed : ∀ p e, d.Reaches p → e ∈ p.elements → e.isPackage = true → d.Reaches e :=
      fun _ _ hp he hpackage => .nested hp he hpackage
    exact packagesIn_subset hclosed d.elements (fun _ he hpackage => .top he hpackage) e he
  · intro he
    induction he with
    | top he hpackage => exact mem_packagesIn_of_mem he hpackage
    | nested _ he hpackage ih => exact mem_packagesIn_nested d.elements ih he hpackage

/-- Of the packages with a name that are indexed there is a last one. -/
theorem exists_isLastNamed (hp : p ∈ ps) (hindexed : p.IsIndexed) (hname : p.name = some name) :
    ∃ last, IsLastNamed ps name last := by
  induction ps generalizing p with
  | nil => cases hp
  | cons q rest ih =>
    by_cases hlater : ∃ p' ∈ rest, p'.IsIndexed ∧ p'.name = some name
    · rcases hlater with ⟨p', hp', hindexed', hname'⟩
      rcases ih hp' hindexed' hname' with ⟨last, hlast, hlastName, before, after, rfl, hnone⟩
      exact ⟨last, hlast, hlastName, q :: before, after, rfl, hnone⟩
    · have hnone : ∀ p' ∈ rest, p'.IsIndexed → p'.name ≠ some name :=
        fun p' hp' hindexed' hname' => hlater ⟨p', hp', hindexed', hname'⟩
      have hfirst : p = q :=
        (List.mem_cons.1 hp).resolve_right fun hrest => hnone p hrest hindexed hname
      subst hfirst
      exact ⟨p, hindexed, hname, [], rest, rfl, hnone⟩

end Xmi

namespace Model

open Xmi (packagesIn IsLastNamed)

variable {packages packages' : Table Package} {entries entries' : Table Entry} {p : Xmi.Element}
  {ps : List Xmi.Element} {name : String}

/-! ## Filing one package after the other -/

/-- Files a package, without those that are nested in it. -/
def file (packages : Table Package) (p : Xmi.Element) : Except ModelError (Table Package) := do
  let name ← require .packageName p.name
  (indexOwn packages name p.elements).result

mutual

theorem result_indexPackage (packages : Table Package) (e : Xmi.Element) :
    (indexPackage packages e).result = e.packages.foldlM file packages := by
  rcases e with ⟨id, tag, name, elements, attributes, literals, generalizations⟩
  rw [indexPackage, Xmi.Element.packages, List.foldlM_cons, Run.result_bind, Run.result_ofExcept]
  unfold file
  cases require .packageName name with
  | error err => rfl
  | ok name =>
    show (indexOwn packages name elements >>= fun own => indexNested own elements).result =
      (indexOwn packages name elements).result >>= fun own => (packagesIn elements).foldlM file own
    rw [Run.result_bind]
    exact congrArg _ (funext fun own => result_indexNested own elements)

theorem result_indexNested (packages : Table Package) (elements : List Xmi.Element) :
    (indexNested packages elements).result = (packagesIn elements).foldlM file packages := by
  match elements with
  | [] =>
    rw [indexNested, packagesIn]
    rfl
  | e :: rest =>
    rw [indexNested, packagesIn]
    split
    · rw [Run.result_bind, result_indexPackage packages e, List.foldlM_append]
      exact congrArg _ (funext fun own => result_indexNested own rest)
    · exact result_indexNested packages rest

end

/-- What stands at the top is filed as what stands in a package is. -/
theorem result_indexTop (packages : Table Package) (elements : List Xmi.Element) :
    (indexTop packages elements).result = (packagesIn elements).foldlM file packages := by
  induction elements generalizing packages with
  | nil =>
    rw [indexTop, packagesIn]
    rfl
  | cons e rest ih =>
    rw [indexTop, packagesIn]
    split
    · rw [Run.result_bind, result_indexPackage, List.foldlM_append]
      exact congrArg _ (funext fun own => ih own)
    · rw [Run.result_report_bind]
      exact ih packages

/-- A document describes a model if its packages can be filed and something is. -/
theorem result_ofDocument (d : Xmi.Document) : (ofDocument d).result =
    (packagesIn d.elements).foldlM file ∅ >>= fun packages =>
      if packages.isEmpty then .error (.malformed .noPackage) else .ok { packages } := by
  rw [ofDocument, Run.result_report_bind, Run.result_bind, result_indexTop]
  refine congrArg _ (funext fun packages => ?_)
  split
  · rfl
  · rfl

/-! ## What is filed -/

/-- An entry that is new is there beside those that were. -/
lemma get?_insert_new {e e' : Entry} {id : Identifier} (hnew : entries.get? e.id = none) :
    (entries.insert e.id e).get? id = some e' ↔
      entries.get? id = some e' ∨ e'.id = id ∧ e' = e := by
  rw [Table.get?_insert]
  by_cases hid : id = e.id
  · subst hid
    rw [if_pos rfl, hnew, Option.some.injEq]
    constructor
    · rintro rfl
      exact Or.inr ⟨rfl, rfl⟩
    · rintro (h | ⟨-, rfl⟩)
      · cases h
      · rfl
  · rw [if_neg hid]
    constructor
    · exact Or.inl
    · rintro (h | ⟨rfl, rfl⟩)
      · exact h
      · exact absurd rfl hid

/-- The entries of a package are what its members describe, and every member describes one unless it
is anonymous. -/
theorem indexMembers_spec {package : String} {elements : List Xmi.Element}
    (h : (indexMembers package entries elements).result = .ok entries') :
    (∀ c ∈ elements, c.isAnonymous = false → ∃ e : Entry, e.DescribedBy c) ∧
    ∀ id e, entries'.get? id = some e ↔
      entries.get? id = some e ∨ e.id = id ∧ ∃ c ∈ elements, e.DescribedBy c := by
  induction elements generalizing entries with
  | nil =>
    cases h
    simp
  | cons c rest ih =>
    rcases indexMembers_cons_eq_ok h with ⟨hanonymous, h⟩ | ⟨entry, hentry, hnew, h⟩
    · rcases ih h with ⟨hdescribed, hentries⟩
      have hnone : ∀ e : Entry, ¬ e.DescribedBy c := by
        intro e he
        rw [he.isAnonymous_eq_false] at hanonymous
        cases hanonymous
      constructor
      · rw [List.forall_mem_cons]
        refine ⟨fun hnot => ?_, hdescribed⟩
        rw [hanonymous] at hnot
        cases hnot
      · intro id e
        rw [hentries, List.exists_mem_cons_iff]
        simp only [hnone, false_or]
    · rcases ih h with ⟨hdescribed, hentries⟩
      have hc : ∀ e : Entry, e.DescribedBy c ↔ e = entry := by
        intro e
        rw [← Entry.ofElement_eq_ok_iff, hentry, Except.ok.injEq, eq_comm]
      constructor
      · rw [List.forall_mem_cons]
        exact ⟨fun _ => ⟨entry, (hc entry).2 rfl⟩, hdescribed⟩
      · intro id e
        rw [hentries, get?_insert_new hnew, List.exists_mem_cons_iff, hc, and_or_left, or_assoc]

/-- A step of the walk files a package that is indexed, and leaves all others alone. -/
theorem file_eq_ok (h : file packages p = .ok packages') :
    ∃ name, p.name = some name ∧
      (¬ p.IsIndexed ∧ packages' = packages ∨
        p.IsIndexed ∧ ∃ entries, (indexMembers name ∅ p.members).result = .ok entries ∧
          packages' = packages.insert name { name, entries }) := by
  rcases bind_eq_ok_iff.1 h with ⟨name, hname, h⟩
  refine ⟨name, require_eq_ok_iff.1 hname, ?_⟩
  rcases indexOwn_eq_ok h with ⟨hmembers, helements, heq⟩ | ⟨hindexed, entries, hentries, heq⟩
  · refine Or.inl ⟨?_, heq⟩
    rintro (hne | hempty)
    · exact hne hmembers
    · exact helements hempty
  · exact Or.inr ⟨hindexed, entries, hentries, heq⟩

/-- A walk that succeeds files each package that it comes to. -/
theorem exists_file_of_mem (h : ps.foldlM file packages = .ok packages') (hp : p ∈ ps) :
    ∃ before after, file before p = .ok after := by
  rcases List.append_of_mem hp with ⟨earlier, later, rfl⟩
  rw [List.foldlM_append] at h
  rcases bind_eq_ok_iff.1 h with ⟨before, -, h⟩
  rw [List.foldlM_cons] at h
  rcases bind_eq_ok_iff.1 h with ⟨after, hfile, -⟩
  exact ⟨before, after, hfile⟩

/-- Packages of other names leave what is filed under a name alone. -/
theorem foldlM_file_get?_of_ne (h : ps.foldlM file packages = .ok packages')
    (hother : ∀ q ∈ ps, q.IsIndexed → q.name ≠ some name) :
    packages'.get? name = packages.get? name := by
  induction ps generalizing packages with
  | nil =>
    cases h
    rfl
  | cons q rest ih =>
    rw [List.forall_mem_cons] at hother
    rw [List.foldlM_cons] at h
    rcases bind_eq_ok_iff.1 h with ⟨packages₁, hq, h⟩
    rw [ih h hother.2]
    rcases file_eq_ok hq with ⟨qname, hqname, ⟨-, rfl⟩ | ⟨hindexed, entries, -, rfl⟩⟩
    · rfl
    · have hne : name ≠ qname := by
        rintro rfl
        exact hother.1 hindexed hqname
      exact Table.get?_insert_of_ne packages hne _

/-- The last package of a name that is indexed is the one that is filed. -/
theorem foldlM_file_get?_last (h : ps.foldlM file packages = .ok packages')
    (hlast : IsLastNamed ps name p) :
    ∃ entries, (indexMembers name ∅ p.members).result = .ok entries ∧
      packages'.get? name = some { name, entries } := by
  rcases hlast with ⟨hindexed, hname, before, after, rfl, hnone⟩
  rw [List.foldlM_append] at h
  rcases bind_eq_ok_iff.1 h with ⟨packages₁, -, h⟩
  rw [List.foldlM_cons] at h
  rcases bind_eq_ok_iff.1 h with ⟨packages₂, hp, h⟩
  rw [foldlM_file_get?_of_ne h hnone]
  rcases file_eq_ok hp with ⟨name', hname', ⟨hnot, -⟩ | ⟨-, entries, hentries, rfl⟩⟩
  · exact absurd hindexed hnot
  · cases hname.symm.trans hname'
    exact ⟨entries, hentries, Table.get?_insert_self packages₁ name _⟩

/-- The packages of a model are those of its document, filed in turn. -/
theorem foldlM_file_of_ofDocument {d : Xmi.Document} {m : Model}
    (h : (ofDocument d).result = .ok m) :
    (packagesIn d.elements).foldlM file ∅ = .ok m.packages := by
  rw [result_ofDocument] at h
  rcases bind_eq_ok_iff.1 h with ⟨packages, hpackages, h⟩
  split at h
  · cases h
  · cases h
    exact hpackages

theorem exists_document_of_load {bytes : ByteArray} {m : Model}
    (h : (load bytes).result = .ok m) :
    ∃ d, decodeDocument bytes = .ok d ∧ (packagesIn d.elements).foldlM file ∅ = .ok m.packages := by
  rw [load] at h
  rcases Run.result_bind_eq_ok_iff.1 h with ⟨d, hd, h⟩
  exact ⟨d, hd, foldlM_file_of_ofDocument h⟩

/-! ## What is lost -/

/-- Whatever the members of the packages of a document describe is filed under the names of these
packages. -/
def FilesAll (m : Model) (d : Xmi.Document) : Prop :=
  ∀ p, d.Reaches p → ∀ c ∈ p.members, c.isAnonymous = false →
    ∃ name package e, p.name = some name ∧ m.package? name = some package ∧
      Entry.DescribedBy e c ∧ package.entries.get? e.id = some e

/-- What a package describes is described by the last package of its name as well. -/
def LastDescribeAll (d : Xmi.Document) : Prop :=
  ∀ p, d.Reaches p → ∀ c ∈ p.members, c.isAnonymous = false →
    ∀ name last, p.name = some name → IsLastNamed (packagesIn d.elements) name last →
      ∀ e : Entry, e.DescribedBy c → ∃ c' ∈ last.members, e.DescribedBy c'

section Walked

variable {d : Xmi.Document} {m : Model}
  (h : (packagesIn d.elements).foldlM file ∅ = .ok m.packages)

include h

/-- A member of a package describes an entry, unless it is anonymous, and the package has a name. -/
theorem exists_describedBy {c : Xmi.Element} (hp : d.Reaches p) (hc : c ∈ p.members)
    (hnot : c.isAnonymous = false) :
    ∃ name last, ∃ e : Entry, p.name = some name ∧
      IsLastNamed (packagesIn d.elements) name last ∧ e.DescribedBy c := by
  have hwalked : p ∈ packagesIn d.elements := Xmi.mem_packagesIn_iff.2 hp
  have hindexed : p.IsIndexed := Or.inl (List.ne_nil_of_mem hc)
  rcases exists_file_of_mem h hwalked with ⟨before, after, hfile⟩
  rcases file_eq_ok hfile with ⟨name, hname, ⟨hnever, -⟩ | ⟨-, own, hown, -⟩⟩
  · exact absurd hindexed hnever
  rcases (indexMembers_spec hown).1 c hc hnot with ⟨e, he⟩
  rcases Xmi.exists_isLastNamed hwalked hindexed hname with ⟨last, hlast⟩
  exact ⟨name, last, e, hname, hlast, he⟩

/-- The package that is filed under a name holds what the last one of that name describes. -/
theorem package?_last {last : Xmi.Element} (hlast : IsLastNamed (packagesIn d.elements) name last) :
    ∃ package, m.package? name = some package ∧
      ∀ e : Entry, package.entries.get? e.id = some e ↔ ∃ c ∈ last.members, e.DescribedBy c := by
  rcases foldlM_file_get?_last h hlast with ⟨entries, hentries, hpackage⟩
  refine ⟨⟨name, entries⟩, hpackage, fun e => ?_⟩
  rw [(indexMembers_spec hentries).2, Table.get?_empty]
  simp

end Walked

/-- Loading files all that a document describes exactly if the last package of each name describes
what the others of that name do: a package takes the place of an earlier one of its name. -/
theorem load_filesAll_iff {bytes : ByteArray} {m : Model} (h : (load bytes).result = .ok m) :
    ∃ d, decodeDocument bytes = .ok d ∧ (m.FilesAll d ↔ LastDescribeAll d) := by
  rcases exists_document_of_load h with ⟨d, hd, hfiled⟩
  refine ⟨d, hd, ?_⟩
  constructor
  · intro hall p hp c hc hnot name last hname hlast e he
    rcases hall p hp c hc hnot with ⟨name', package, e', hname', hpackage, he', hget⟩
    cases hname.symm.trans hname'
    have hsame : e' = e := he'.unique he
    subst hsame
    rcases package?_last hfiled hlast with ⟨package', hpackage', hentries⟩
    cases hpackage.symm.trans hpackage'
    exact (hentries e').1 hget
  · intro hall p hp c hc hnot
    rcases exists_describedBy hfiled hp hc hnot with ⟨name, last, e, hname, hlast, he⟩
    rcases package?_last hfiled hlast with ⟨package, hpackage, hentries⟩
    have hdescribed : ∃ c' ∈ last.members, e.DescribedBy c' :=
      hall p hp c hc hnot name last hname hlast e he
    exact ⟨name, package, e, hname, hpackage, he, (hentries e).2 hdescribed⟩

theorem sample_filesAll_iff : ∃ d, decodeDocument sampleDocument.toUTF8 = .ok d ∧
    (sample.FilesAll d ↔ LastDescribeAll d) :=
  load_filesAll_iff load_sampleDocument

/-- Two packages of one name, each with an entry. -/
def repeatedDocument : String :=
  "<XMI><Model>
    <packagedElement type='uml:Package' name='flight'>
      <packagedElement type='uml:PrimitiveType' id='ID_flight.Plan' name='Plan'/>
    </packagedElement>
    <packagedElement type='uml:Package' name='flight'>
      <packagedElement type='uml:PrimitiveType' id='ID_flight.Flight' name='Flight'/>
    </packagedElement>
  </Model></XMI>"

/-- A package of the document is named `flight` and holds a plan. -/
def hasPlan (d : Xmi.Document) : Bool :=
  d.elements.any fun p => p.isPackage && p.name = some "flight" &&
    p.members.any (·.id = some "ID_flight.Plan")

set_option maxRecDepth 100000 in
/-- The document has a plan, and the model that it describes has none. -/
theorem parse_repeatedDocument : ((Xmi.Document.parse repeatedDocument).toOption.map fun d =>
    (hasPlan d, (ofDocument d).result.toOption.map (·.files "flight" "ID_flight.Plan"))) =
      some (true, some false) := by
  unfold Xmi.Document.parse Xml.Content.ofDocument repeatedDocument
  rw [scan_ofList]
  decide +kernel

/-- The first of two packages of one name is lost, with what it describes. -/
theorem repeated_not_filesAll : ∃ d m, decodeDocument repeatedDocument.toUTF8 = .ok d ∧
    (load repeatedDocument.toUTF8).result = .ok m ∧ ¬ m.FilesAll d := by
  rcases exists_of_toOption_map parse_repeatedDocument with ⟨d, hd, hview⟩
  rw [Prod.mk.injEq] at hview
  rcases hview with ⟨hplan, hmodel⟩
  rcases exists_of_toOption_map hmodel with ⟨m, hm, hfiles⟩
  refine ⟨d, m, ?_, ?_, ?_⟩
  · rw [decodeDocument_toUTF8, hd]
    rfl
  · rw [load_toUTF8, hd]
    exact hm
  intro hall
  unfold hasPlan at hplan
  simp only [List.any_eq_true, Bool.and_eq_true, decide_eq_true_eq] at hplan
  rcases hplan with ⟨p, hp, ⟨hpackage, hname⟩, c, hc, hid⟩
  have hnot : c.isAnonymous = false := by
    simp [Xmi.Element.isAnonymous, hid]
  rcases hall p (.top hp hpackage) c hc hnot with ⟨name, package, e, hname', hfiled, he, hget⟩
  cases hname.symm.trans hname'
  have heid : e.id = "ID_flight.Plan" := Option.some.inj (he.id.symm.trans hid)
  rw [heid] at hget
  -- what is filed is found
  unfold files at hfiles
  rw [hfiled] at hfiles
  simp [Table.contains, hget] at hfiles

end Model

end UmlTyping
