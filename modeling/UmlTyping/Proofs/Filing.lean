import Mathlib.Data.List.Pairwise
import Mathlib.Data.List.Perm.Basic
import UmlTyping.Proofs.Indexing

/-!
# The order of filing

What a package files is a table of what its members describe, and what a document files a table of
what its packages describe. Members may come in any order: two of them with one identifier are
refused whichever comes first. Packages may as well, as long as no two share their name, for then
the later one would stand.

So `SameFiling` compares elements by what they file alone, as lists of which the order is left open.
Documents whose elements file the same describe the same model (`toOption_ofDocument`).
-/

namespace UmlTyping

/-! ## What is filed -/

namespace Xmi

/-- What an element files as a member of a package, if it can be a member. An anonymous one files
nothing. -/
def Element.filing (c : Element) : Option (Option Entry) :=
  if c.isAnonymous then some none else (Entry.ofElement c).toOption.map some

/-- What a package files without those that are nested in it, if all its members can be filed. One
that only groups packages files nothing. -/
def Element.ownFiling (p : Element) : Option (Option Package) := do
  let name ← p.name
  if p.members.isEmpty && !p.elements.isEmpty then some none
  else
    let entries ← (Model.indexMembers name ∅ p.members).result.toOption
    some (some { name, entries })

/-- The elements file the same, in one order or another. -/
structure SameFiling (es es' : List Element) : Prop where
  isEmpty : es.isEmpty = es'.isEmpty
  members : ((es.filter (!·.isPackage)).map Element.filing).Perm
    ((es'.filter (!·.isPackage)).map Element.filing)
  packages : ((packagesIn es).map Element.ownFiling).Perm ((packagesIn es').map Element.ownFiling)

/-- The elements say the same, and what stands inside them files the same. -/
structure Element.Alike (e e' : Element) : Prop where
  id : e.id = e'.id
  tag : e.tag = e'.tag
  name : e.name = e'.name
  attributes : e.attributes = e'.attributes
  literals : e.literals = e'.literals
  generalizations : e.generalizations.Perm e'.generalizations
  elements : SameFiling e.elements e'.elements

end Xmi

namespace Model

open Xmi (packagesIn SameFiling)

/-! ## Filing one after the other -/

section

variable {β γ : Type} {file : β → γ → Option β}

/-- Files what is described, if that can be done and all that comes before it could be. -/
def fileNext (file : β → γ → Option β) (filed : Option β) (filing : Option (Option γ)) :
    Option β := do
  let filed ← filed
  match ← filing with
  | none => some filed
  | some c => file filed c

@[simp] lemma fileNext_none (filed : Option β) : fileNext file filed none = none := by
  cases filed with
  | none => rfl
  | some b => rfl

@[simp] lemma fileNext_nothing (filed : Option β) : fileNext file filed (some none) = filed := by
  cases filed with
  | none => rfl
  | some b => rfl

@[simp] lemma none_fileNext (filing : Option (Option γ)) : fileNext file none filing = none := rfl

/-- Nothing is filed behind what cannot be. -/
lemma foldl_fileNext_none (filings : List (Option (Option γ))) :
    filings.foldl (fileNext file) none = none := by
  induction filings with
  | nil => rfl
  | cons _ rest ih => exact ih

/-- What makes no difference to `file` makes none to the filing of all. -/
lemma fileNext_comm {x y : Option (Option γ)}
    (h : ∀ b c d, x = some (some c) → y = some (some d) →
      (file b c).bind (file · d) = (file b d).bind (file · c)) (filed : Option β) :
    fileNext file (fileNext file filed x) y = fileNext file (fileNext file filed y) x := by
  match x, y with
  | none, y => simp
  | x, none => simp
  | some none, y => simp
  | x, some none => simp
  | some (some c), some (some d) =>
    cases filed with
    | none => rfl
    | some b => exact h b c d rfl rfl

end

/-- An entry needs an identifier that is free. -/
def entryInto (entries : Table Entry) (e : Entry) : Option (Table Entry) :=
  if entries.contains e.id then none else some (entries.insert e.id e)

/-- A package takes the place of another one of its name. -/
def packageInto (packages : Table Package) (p : Package) : Option (Table Package) :=
  some (packages.insert p.name p)

theorem toOption_indexMembers (package : String) (entries : Table Entry) (es : List Xmi.Element) :
    (indexMembers package entries es).result.toOption =
      (es.map Xmi.Element.filing).foldl (fileNext entryInto) (some entries) := by
  induction es generalizing entries with
  | nil => rfl
  | cons c rest ih =>
    rw [indexMembers, List.map_cons, List.foldl_cons, Xmi.Element.filing]
    split
    · rw [Run.result_report_bind]
      exact ih entries
    · rw [Run.result_bind, Run.result_ofExcept]
      cases Entry.ofElement c with
      | error err => exact (foldl_fileNext_none _).symm
      | ok e =>
        show Except.toOption (Run.result (Run.report (.indexing e.id e.tag) >>= fun _ => _)) =
          (rest.map _).foldl (fileNext entryInto) (entryInto entries e)
        rw [Run.result_report_bind, entryInto]
        split
        · exact (foldl_fileNext_none _).symm
        · exact ih _

theorem toOption_file (packages : Table Package) (p : Xmi.Element) :
    (file packages p).toOption = fileNext packageInto (some packages) p.ownFiling := by
  unfold file Xmi.Element.ownFiling
  cases p.name with
  | none => rfl
  | some name =>
    show (indexOwn packages name p.elements).result.toOption =
      fileNext packageInto (some packages)
        (if p.members.isEmpty && !p.elements.isEmpty then some none else _)
    rw [indexOwn, Xmi.Element.members]
    split
    · rfl
    · rw [Run.result_bind]
      cases (indexMembers name ∅ (p.elements.filter (!·.isPackage))).result with
      | error err => rfl
      | ok entries => rfl

theorem toOption_foldlM_file (packages : Table Package) (ps : List Xmi.Element) :
    (ps.foldlM file packages).toOption =
      (ps.map Xmi.Element.ownFiling).foldl (fileNext packageInto) (some packages) := by
  induction ps generalizing packages with
  | nil => rfl
  | cons p rest ih =>
    rw [List.foldlM_cons, List.map_cons, List.foldl_cons, ← toOption_file]
    cases file packages p with
    | error err => exact (foldl_fileNext_none _).symm
    | ok packages' => exact ih packages'

/-! ## Any order -/

/-- Of two entries with one identifier the second is refused, whichever it is. -/
lemma entryInto_comm (entries : Table Entry) (e e' : Entry) :
    (entryInto entries e).bind (entryInto · e') = (entryInto entries e').bind (entryInto · e) := by
  unfold entryInto
  by_cases hid : e.id = e'.id
  · cases h : entries.contains e'.id <;> simp [h, hid, Table.contains_insert]
  · have hid' : e'.id ≠ e.id := fun h => hid h.symm
    cases h : entries.contains e.id <;> cases h' : entries.contains e'.id <;>
      simp [h, h', hid, hid', Table.contains_insert, Table.insert_comm entries hid]

lemma packageInto_comm (packages : Table Package) {p q : Package} (h : p.name = q.name → p = q) :
    (packageInto packages p).bind (packageInto · q) =
      (packageInto packages q).bind (packageInto · p) := by
  by_cases hname : p.name = q.name
  · rw [h hname]
  · exact congrArg some (Table.insert_comm packages hname p q)

/-- The members of a package may come in any order. -/
theorem toOption_indexMembers_perm {es es' : List Xmi.Element} (package : String)
    (h : (es.map Xmi.Element.filing).Perm (es'.map Xmi.Element.filing)) :
    (indexMembers package ∅ es).result.toOption = (indexMembers package ∅ es').result.toOption := by
  rw [toOption_indexMembers, toOption_indexMembers]
  apply h.foldl_eq'
  intro x _ y _ filed
  exact fileNext_comm (fun entries e e' _ _ => entryInto_comm entries e e') filed

/-- A package is filed under its own name. -/
lemma name_of_ownFiling {p : Xmi.Element} {package : Package}
    (h : p.ownFiling = some (some package)) : p.name = some package.name := by
  unfold Xmi.Element.ownFiling at h
  obtain ⟨name, hname, h⟩ := Option.bind_eq_some_iff.1 h
  split at h
  · cases h
  · obtain ⟨entries, -, h⟩ := Option.bind_eq_some_iff.1 h
    cases h
    exact hname

lemma eq_of_nodup_names {ps : List Xmi.Element} (h : (ps.filterMap (·.name)).Nodup)
    {p q : Xmi.Element} {name : String} (hp : p ∈ ps) (hq : q ∈ ps) (hpname : p.name = some name)
    (hqname : q.name = some name) : p = q := by
  by_contra hne
  have hpairs : ps.Pairwise fun a b => ∀ n, a.name = some n → ∀ n', b.name = some n' → n ≠ n' :=
    List.pairwise_filterMap.1 h
  have hsymm : Std.Symm fun a b : Xmi.Element =>
      ∀ n, a.name = some n → ∀ n', b.name = some n' → n ≠ n' :=
    ⟨fun a b hab n hn n' hn' => (hab n' hn' n hn).symm⟩
  exact hpairs.forall hp hq hne name hpname name hqname rfl

/-- Packages of different names may come in any order. -/
theorem toOption_foldlM_file_perm {ps ps' : List Xmi.Element}
    (hnames : (ps.filterMap (·.name)).Nodup)
    (h : (ps.map Xmi.Element.ownFiling).Perm (ps'.map Xmi.Element.ownFiling)) :
    (ps.foldlM file ∅).toOption = (ps'.foldlM file ∅).toOption := by
  rw [toOption_foldlM_file, toOption_foldlM_file]
  apply h.foldl_eq'
  intro x hx y hy filed
  apply fileNext_comm
  intro packages p q hp hq
  apply packageInto_comm
  intro hname
  -- what is filed under one name comes from one package
  obtain ⟨a, ha, rfl⟩ := List.mem_map.1 hx
  obtain ⟨b, hb, rfl⟩ := List.mem_map.1 hy
  have hab : a = b :=
    eq_of_nodup_names hnames ha hb (name_of_ownFiling hp) (hname ▸ name_of_ownFiling hq)
  rw [hab, hq] at hp
  exact Option.some.inj (Option.some.inj hp.symm)

end Model

/-! ## Elements that file the same -/

namespace Xmi

variable {es es' es'' : List Element} {e e' : Element}

namespace Element.Alike

/-- There may be at most one generalization, so their order says nothing. -/
lemma describedBy_iff (h : e.Alike e') (entry : Entry) :
    entry.DescribedBy e ↔ entry.DescribedBy e' := by
  have hgeneral : e.generalizations = entry.generalization.toList.map some ↔
      e'.generalizations = entry.generalization.toList.map some := by
    cases entry.generalization with
    | none =>
      show e.generalizations = [] ↔ e'.generalizations = []
      rw [← List.perm_nil, ← List.perm_nil]
      exact ⟨h.generalizations.symm.trans, h.generalizations.trans⟩
    | some g =>
      show e.generalizations = [some g] ↔ e'.generalizations = [some g]
      rw [← List.perm_singleton, ← List.perm_singleton]
      exact ⟨h.generalizations.symm.trans, h.generalizations.trans⟩
  constructor
  · rintro ⟨hid, htag, hname, hliterals, hattributes, hone⟩
    exact ⟨h.id ▸ hid, h.tag ▸ htag, h.name ▸ hname, h.literals ▸ hliterals,
      h.attributes ▸ hattributes, hgeneral.1 hone⟩
  · rintro ⟨hid, htag, hname, hliterals, hattributes, hone⟩
    exact ⟨h.id ▸ hid, h.tag ▸ htag, h.name ▸ hname, h.literals ▸ hliterals,
      h.attributes ▸ hattributes, hgeneral.2 hone⟩

lemma filing_eq (h : e.Alike e') : e.filing = e'.filing := by
  have hentry : (Entry.ofElement e).toOption = (Entry.ofElement e').toOption := by
    ext entry
    rw [toOption_eq_some_iff, toOption_eq_some_iff, Entry.ofElement_eq_ok_iff,
      Entry.ofElement_eq_ok_iff, h.describedBy_iff]
  unfold filing isAnonymous
  rw [h.id, h.tag, hentry]

lemma ownFiling_eq (h : e.Alike e') : e.ownFiling = e'.ownFiling := by
  have hmembers : e.members.isEmpty = e'.members.isEmpty := by
    have hlength := h.elements.members.length_eq
    rw [List.length_map, List.length_map] at hlength
    rw [Bool.eq_iff_iff, List.isEmpty_iff_length_eq_zero, List.isEmpty_iff_length_eq_zero]
    unfold members
    rw [hlength]
  have hentries : ∀ name, (Model.indexMembers name ∅ e.members).result.toOption =
      (Model.indexMembers name ∅ e'.members).result.toOption :=
    fun name => Model.toOption_indexMembers_perm name h.elements.members
  unfold ownFiling
  rw [h.name, hmembers, h.elements.isEmpty]
  refine congrArg (Option.bind e'.name) (funext fun name => ?_)
  rw [hentries]

end Element.Alike

namespace SameFiling

lemma refl (es : List Element) : SameFiling es es := ⟨rfl, .refl _, .refl _⟩

lemma symm (h : SameFiling es es') : SameFiling es' es :=
  ⟨h.isEmpty.symm, h.members.symm, h.packages.symm⟩

lemma trans (h : SameFiling es es') (h' : SameFiling es' es'') : SameFiling es es'' :=
  ⟨h.isEmpty.trans h'.isEmpty, h.members.trans h'.members, h.packages.trans h'.packages⟩

theorem cons (he : e.Alike e') (h : SameFiling es es') : SameFiling (e :: es) (e' :: es') := by
  have hpackage : e.isPackage = e'.isPackage := by
    unfold Element.isPackage
    rw [he.tag]
  refine ⟨rfl, ?_, ?_⟩
  · rw [List.filter_cons, List.filter_cons, hpackage]
    split
    · rw [List.map_cons, List.map_cons, he.filing_eq]
      exact h.members.cons _
    · exact h.members
  · rw [packagesIn, packagesIn, hpackage]
    split
    · rw [e.packages_eq, e'.packages_eq, List.cons_append, List.cons_append, List.map_cons,
        List.map_cons, List.map_append, List.map_append, he.ownFiling_eq]
      exact (he.elements.packages.append h.packages).cons _
    · exact h.packages

/-- Neighbours may change places. -/
theorem swap (a b : Element) (es : List Element) : SameFiling (a :: b :: es) (b :: a :: es) := by
  refine ⟨rfl, ?_, ?_⟩
  · exact ((List.Perm.swap b a es).filter _).map _
  · apply List.Perm.map
    rw [packagesIn, packagesIn, packagesIn, packagesIn]
    split <;> split
    · rw [← List.append_assoc, ← List.append_assoc]
      exact List.perm_append_comm.append_right _
    · exact .refl _
    · exact .refl _
    · exact .refl _

end SameFiling

end Xmi

namespace Model

/-- Documents whose elements file the same describe the same model, if any. -/
theorem toOption_ofDocument {d d' : Xmi.Document}
    (hnames : ((Xmi.packagesIn d.elements).filterMap (·.name)).Nodup)
    (h : Xmi.SameFiling d.elements d'.elements) :
    (ofDocument d).result.toOption = (ofDocument d').result.toOption := by
  have hview : ∀ d : Xmi.Document, (ofDocument d).result.toOption =
      ((Xmi.packagesIn d.elements).foldlM file ∅).toOption.bind fun packages =>
        if packages.isEmpty then none else some (Model.mk packages) := by
    intro d
    rw [result_ofDocument]
    cases (Xmi.packagesIn d.elements).foldlM file ∅ with
    | error err => rfl
    | ok packages => exact apply_ite Except.toOption _ _ _
  rw [hview, hview, toOption_foldlM_file_perm hnames h.packages]

end Model

end UmlTyping
