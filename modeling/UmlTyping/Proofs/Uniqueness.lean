import UmlTyping.Definition.TypeExpr
import UmlTyping.Proofs.Inspection
import UmlTyping.Proofs.Lookup

/-!
# Identifiers in a model

An identifier is meant to be that of one entry in the whole of a model, for references have nothing
else to go by. It is compared with others only while one package is filed, so that two packages may
hold entries of one identifier. Then the look-up that makes a reference a scalar and the one that
leads to its entry can come upon different entries.

What a model holds is what its document describes in the packages that stand in the end
(`holds_iff_describes`). So the document shows whether identifiers are taken once, and whether the
two look-ups agree (`load_filesOnce_iff`).
-/

namespace UmlTyping

namespace Xmi

/-- The last package of a name describes an entry. -/
def Document.Describes (d : Document) (name : String) (e : Entry) : Prop :=
  ∃ p, IsLastNamed (packagesIn d.elements) name p ∧ ∃ c ∈ p.members, e.DescribedBy c

/-- Of the packages that are the last ones of their names, no two have members with one identifier. -/
def Document.IdentifiesOnce (d : Document) : Prop :=
  ∀ name name' p p', IsLastNamed (packagesIn d.elements) name p →
    IsLastNamed (packagesIn d.elements) name' p' →
      ∀ c ∈ p.members, ∀ c' ∈ p'.members, ∀ id, c.id = some id → c'.id = some id → name = name'

/-- The scalars that a document describes are not described otherwise where their identifiers say. -/
def Document.DescribesScalarsOnce (d : Document) : Prop :=
  ∀ e e' name, d.Describes primitivePackage e → e.id.qualifiedPackage? = some name →
    d.Describes name e' → e'.id = e.id → e = e'

end Xmi

namespace Model

variable {m : Model} {d : Xmi.Document} {name : String} {e : Entry}

/-- No identifier is filed in two packages. -/
def FilesOnce (m : Model) : Prop :=
  ∀ name name' e e', m.Holds name e → m.Holds name' e' → e.id = e'.id → name = name'

/-- What is filed among the scalars under an identifier is what the identifier leads to, if it leads
to anything. -/
def LookupsAgree (m : Model) : Prop :=
  ∀ e e', m.Holds primitivePackage e → m.find? e.id = some e' → e = e'

/-- A package files something under an identifier exactly if it holds an entry with that. -/
theorem Coherent.files_iff (hm : m.Coherent) {id : Identifier} :
    m.files name id = true ↔ ∃ e, e.id = id ∧ m.Holds name e := by
  unfold files Holds
  rw [Option.any_eq_true]
  constructor
  · rintro ⟨package, hpackage, hcontains⟩
    obtain ⟨e, he⟩ := Table.contains_eq_true_iff.1 hcontains
    have hid : e.id = id := (hm name package hpackage).2 id e he
    exact ⟨e, hid, package, hpackage, hid ▸ he⟩
  · rintro ⟨e, rfl, package, hpackage, he⟩
    exact ⟨package, hpackage, Table.contains_eq_true_iff.2 ⟨e, he⟩⟩

theorem Coherent.lookupsAgree (hm : m.Coherent) (h : m.FilesOnce) : m.LookupsAgree := by
  intro e e' he hfind
  obtain ⟨hid, name, -, he'⟩ := hm.find?_eq_some_iff.1 hfind
  have hname : primitivePackage = name := h _ _ e e' he he' hid.symm
  -- one package has one entry under an identifier
  obtain ⟨package, hpackage, hget⟩ := he
  obtain ⟨package', hpackage', hget'⟩ := he'
  rw [← hname, hpackage, Option.some.injEq] at hpackage'
  rw [← hpackage', hid, hget, Option.some.injEq] at hget'
  exact hget'

/-! ## The document of a model -/

/-- A model holds what its document describes in the packages that stand in the end. -/
theorem holds_iff_describes (h : (ofDocument d).result = .ok m) :
    m.Holds name e ↔ d.Describes name e := by
  have hmodel : m.DescribedBy d := describedBy_of_ofDocument h
  have hlast : ∀ p, Xmi.IsLastNamed (Xmi.packagesIn d.elements) name p →
      (m.Holds name e ↔ ∃ c ∈ p.members, e.DescribedBy c) := by
    intro p hp
    obtain ⟨package, hpackage, -, hentries⟩ := hmodel.package name p hp
    unfold Holds
    simp only [hpackage, Option.some.injEq, exists_eq_left', hentries, true_and]
    exact exists_candidate_iff
  constructor
  · intro hholds
    obtain ⟨package, hpackage, -⟩ := id hholds
    have hkey : name ∈ m.packages.keys := Table.mem_keys_iff.2 ⟨package, hpackage⟩
    obtain ⟨q, hq, hindexed, hname⟩ := (hmodel.names name).1 hkey
    obtain ⟨p, hp⟩ := Xmi.exists_isLastNamed hq hindexed hname
    exact ⟨p, hp, (hlast p hp).1 hholds⟩
  · rintro ⟨p, hp, hdescribed⟩
    exact (hlast p hp).2 hdescribed

/-- A member with an identifier describes the entry that is held under it. -/
theorem exists_holds_of_member (h : (ofDocument d).result = .ok m) {p c : Xmi.Element}
    (hp : Xmi.IsLastNamed (Xmi.packagesIn d.elements) name p) (hc : c ∈ p.members)
    {id : Identifier} (hid : c.id = some id) : ∃ e, e.id = id ∧ m.Holds name e := by
  have hnot : c.isAnonymous = false := by
    simp [Xmi.Element.isAnonymous, hid]
  have hreaches : d.Reaches p := by
    obtain ⟨-, -, before, after, hsplit, -⟩ := hp
    rw [← Xmi.mem_packagesIn_iff, hsplit]
    simp
  obtain ⟨-, -, e, -, -, he⟩ :=
    exists_describedBy (foldlM_file_of_ofDocument h) hreaches hc hnot
  have heid : e.id = id := Option.some.inj (he.id.symm.trans hid)
  exact ⟨e, heid, (holds_iff_describes h).2 ⟨p, hp, c, hc, he⟩⟩

theorem filesOnce_iff_identifiesOnce (h : (ofDocument d).result = .ok m) :
    m.FilesOnce ↔ d.IdentifiesOnce := by
  constructor
  · intro honce name name' p p' hp hp' c hc c' hc' id hid hid'
    obtain ⟨e, he, hholds⟩ := exists_holds_of_member h hp hc hid
    obtain ⟨e', he', hholds'⟩ := exists_holds_of_member h hp' hc' hid'
    exact honce name name' e e' hholds hholds' (he.trans he'.symm)
  · intro honce name name' e e' he he' hid
    obtain ⟨p, hp, c, hc, hdescribed⟩ := (holds_iff_describes h).1 he
    obtain ⟨p', hp', c', hc', hdescribed'⟩ := (holds_iff_describes h).1 he'
    have hcid' : c'.id = some e.id := hid ▸ hdescribed'.id
    exact honce name name' p p' hp hp' c hc c' hc' e.id hdescribed.id hcid'

theorem lookupsAgree_iff (h : (ofDocument d).result = .ok m) :
    m.LookupsAgree ↔ d.DescribesScalarsOnce := by
  have hm : m.Coherent := ofDocument_coherent h
  constructor
  · intro hagree e e' name he hname he' hid
    have hfind : m.find? e.id = some e' :=
      hm.find?_eq_some_iff.2 ⟨hid, name, hname, (holds_iff_describes h).2 he'⟩
    exact hagree e e' ((holds_iff_describes h).2 he) hfind
  · intro honce e e' he hfind
    obtain ⟨hid, name, hname, he'⟩ := hm.find?_eq_some_iff.1 hfind
    exact honce e e' name ((holds_iff_describes h).1 he) hname ((holds_iff_describes h).1 he') hid

/-- A loaded model files no identifier in two packages exactly if no two packages of its document
that stand in the end have members with one identifier. Then what is a scalar under an identifier is
also what the identifier leads to. This holds exactly if no scalar is described otherwise by the
package that its identifier encodes. -/
theorem load_filesOnce_iff {bytes : ByteArray} (h : (load bytes).result = .ok m) :
    ∃ d, decodeDocument bytes = .ok d ∧
      (m.FilesOnce ↔ d.IdentifiesOnce) ∧
      (m.FilesOnce → m.LookupsAgree) ∧
      (m.LookupsAgree ↔ d.DescribesScalarsOnce) ∧
      ∀ id, m.files primitivePackage id = true ↔ ∃ e, e.id = id ∧ m.Holds primitivePackage e := by
  rw [load] at h
  obtain ⟨d, hd, h⟩ := Run.result_bind_eq_ok_iff.1 h
  have hm : m.Coherent := ofDocument_coherent h
  refine ⟨d, hd, filesOnce_iff_identifiesOnce h, hm.lookupsAgree, lookupsAgree_iff h, ?_⟩
  intro id
  exact hm.files_iff

theorem twins_not_agree : ¬ twins.LookupsAgree := by
  intro hagree
  have hfind : twins.find? (twin "uml:PrimitiveType").id = some (twin "uml:Class") := by
    decide +kernel
  exact absurd (hagree _ _ twins_holds.1 hfind) (by decide)

theorem twins_filesOnce_iff : (load twinDocument.toUTF8).result = .ok twins ∧
    ∃ d, decodeDocument twinDocument.toUTF8 = .ok d ∧ ¬ d.IdentifiesOnce ∧
      ¬ d.DescribesScalarsOnce := by
  obtain ⟨d, hd, honce, hagree, hscalars, -⟩ := load_filesOnce_iff load_twinDocument
  refine ⟨load_twinDocument, d, hd, ?_, ?_⟩
  · intro hd
    exact twins_not_agree (hagree (honce.2 hd))
  · intro hd
    exact twins_not_agree (hscalars.2 hd)

/-- A document is loaded that has one identifier in two packages. What refers to it is a scalar, and
what it leads to is a record. -/
theorem twins_not_filesOnce : ∃ m e, (load twinDocument.toUTF8).result = .ok m ∧
    m.files primitivePackage "ID_flight.Plan" = true ∧ m.files "flight" "ID_flight.Plan" = true ∧
    m.find? "ID_flight.Plan" = some e ∧ ¬ m.Holds primitivePackage e ∧
    ¬ m.FilesOnce ∧ ¬ m.LookupsAgree := by
  refine ⟨twins, twin "uml:Class", load_twinDocument, by decide +kernel, by decide +kernel,
    by decide +kernel, ?_, ?_, twins_not_agree⟩
  · rintro ⟨package, hpackage, he⟩
    have hscalars := twins_holds.1
    obtain ⟨package', hpackage', he'⟩ := hscalars
    cases hpackage.symm.trans hpackage'
    exact absurd (he.symm.trans he') (by decide)
  · intro honce
    have hname := honce _ _ _ _ twins_holds.1 twins_holds.2 rfl
    exact absurd hname (by decide)

end Model

end UmlTyping
