import Mathlib.Logic.Basic
import UmlTyping.Model.Load
import UmlTyping.Proofs.Decoding
import UmlTyping.Proofs.Outcome

/-!
# Loaded models

A model that comes of loading files every package under its own name and every entry under its own
identifier (`IsLoaded.coherent`). Both are invariants of indexing: an entry and a package enter
their tables in one place each, and there with the key that is theirs.
-/

namespace UmlTyping

/-- Every entry is filed under its own identifier. -/
def FiledById (entries : Table Entry) : Prop :=
  ∀ id e, entries.get? id = some e → e.id = id

/-- Every package is filed under its own name, and every entry in it under its own identifier. -/
def FiledByName (packages : Table Package) : Prop :=
  ∀ name p, packages.get? name = some p → p.name = name ∧ FiledById p.entries

namespace Model

/-- Packages and entries are filed under what they are called. -/
def Coherent (m : Model) : Prop := FiledByName m.packages

/-- The model is what loading some document gives. -/
def IsLoaded (m : Model) : Prop := ∃ bytes, (Model.load bytes).result = .ok m

end Model

/-! ## Filing -/

lemma filedById_empty : FiledById ∅ := by
  intro id e h
  simp at h

lemma FiledById.insert {entries : Table Entry} (h : FiledById entries) (e : Entry) :
    FiledById (entries.insert e.id e) := by
  intro id e' he'
  rw [Table.get?_insert] at he'
  by_cases hid : id = e.id
  · rw [if_pos hid] at he'
    cases he'
    exact hid.symm
  · rw [if_neg hid] at he'
    exact h id e' he'

lemma filedByName_empty : FiledByName ∅ := by
  intro name p h
  simp at h

lemma FiledByName.insert {packages : Table Package} (h : FiledByName packages) (name : String)
    {entries : Table Entry} (hentries : FiledById entries) :
    FiledByName (packages.insert name { name, entries }) := by
  intro name' p hp
  rw [Table.get?_insert] at hp
  by_cases hname : name' = name
  · rw [if_pos hname] at hp
    cases hp
    exact ⟨hname.symm, hentries⟩
  · rw [if_neg hname] at hp
    exact h name' p hp

/-! ## Indexing -/

namespace Model

/-- An element is passed over, or it is an entry under an identifier that is not taken. -/
theorem indexMembers_cons_eq_ok {package : String} {entries entries' : Table Entry}
    {c : Xmi.Element} {rest : List Xmi.Element}
    (h : (indexMembers package entries (c :: rest)).result = .ok entries') :
    c.isAnonymous = true ∧ (indexMembers package entries rest).result = .ok entries' ∨
      ∃ e, Entry.ofElement c = .ok e ∧ entries.get? e.id = none ∧
        (indexMembers package (entries.insert e.id e) rest).result = .ok entries' := by
  rw [indexMembers] at h
  split at h
  next hanonymous =>
    rw [Run.result_report_bind] at h
    exact Or.inl ⟨hanonymous, h⟩
  · rcases Run.result_bind_eq_ok_iff.1 h with ⟨e, he, h⟩
    rw [Run.result_report_bind] at h
    split at h
    · rcases Run.result_bind_eq_ok_iff.1 h with ⟨_, hthrow, -⟩
      cases hthrow
    next hnew =>
      have hnone : entries.get? e.id = none := by
        rw [Table.contains, Option.not_isSome_iff_eq_none] at hnew
        exact hnew
      exact Or.inr ⟨e, he, hnone, h⟩

/-- A package is filed with its entries, unless all that it holds is packages. -/
theorem indexOwn_eq_ok {packages packages' : Table Package} {name : String}
    {elements : List Xmi.Element}
    (h : (indexOwn packages name elements).result = .ok packages') :
    elements.filter (!·.isPackage) = [] ∧ elements ≠ [] ∧ packages' = packages ∨
      (elements.filter (!·.isPackage) ≠ [] ∨ elements = []) ∧
        ∃ entries, (indexMembers name ∅ (elements.filter (!·.isPackage))).result = .ok entries ∧
          packages' = packages.insert name { name, entries } := by
  rw [indexOwn] at h
  split at h
  next hgroups =>
    rw [Bool.and_eq_true, Bool.not_eq_true', List.isEmpty_iff, List.isEmpty_eq_false_iff] at hgroups
    cases h
    exact Or.inl ⟨hgroups.1, hgroups.2, rfl⟩
  next hindexed =>
    rw [Bool.and_eq_true, Bool.not_eq_true', List.isEmpty_iff, List.isEmpty_eq_false_iff,
      not_and_or, not_not] at hindexed
    rcases Run.result_bind_eq_ok_iff.1 h with ⟨entries, hentries, h⟩
    rw [Run.result_report_bind] at h
    cases h
    exact Or.inr ⟨hindexed, entries, hentries, rfl⟩

theorem indexMembers_filed {package : String} {entries entries' : Table Entry}
    {elements : List Xmi.Element} (hin : FiledById entries)
    (h : (indexMembers package entries elements).result = .ok entries') : FiledById entries' := by
  induction elements generalizing entries with
  | nil =>
    cases h
    exact hin
  | cons c rest ih =>
    rcases indexMembers_cons_eq_ok h with ⟨-, h⟩ | ⟨e, -, -, h⟩
    · exact ih hin h
    · exact ih (hin.insert e) h

theorem indexOwn_filed {packages packages' : Table Package} {name : String}
    {elements : List Xmi.Element} (hin : FiledByName packages)
    (h : (indexOwn packages name elements).result = .ok packages') : FiledByName packages' := by
  rcases indexOwn_eq_ok h with ⟨-, -, rfl⟩ | ⟨-, entries, hentries, rfl⟩
  · exact hin
  · exact hin.insert name (indexMembers_filed filedById_empty hentries)

mutual

theorem indexPackage_filed {packages packages' : Table Package} (element : Xmi.Element)
    (hin : FiledByName packages) (h : (indexPackage packages element).result = .ok packages') :
    FiledByName packages' := by
  rcases element with ⟨_, _, name, elements, _, _, _⟩
  rw [indexPackage] at h
  rcases Run.result_bind_eq_ok_iff.1 h with ⟨name, -, h⟩
  rcases Run.result_bind_eq_ok_iff.1 h with ⟨own, hown, h⟩
  exact indexNested_filed elements (indexOwn_filed hin hown) h

theorem indexNested_filed {packages packages' : Table Package} (elements : List Xmi.Element)
    (hin : FiledByName packages) (h : (indexNested packages elements).result = .ok packages') :
    FiledByName packages' := by
  match elements with
  | [] =>
    cases h
    exact hin
  | e :: rest =>
    rw [indexNested] at h
    split at h
    · rcases Run.result_bind_eq_ok_iff.1 h with ⟨inner, hinner, h⟩
      exact indexNested_filed rest (indexPackage_filed e hin hinner) h
    · exact indexNested_filed rest hin h

end

theorem indexTop_filed {packages packages' : Table Package} {elements : List Xmi.Element}
    (hin : FiledByName packages) (h : (indexTop packages elements).result = .ok packages') :
    FiledByName packages' := by
  induction elements generalizing packages with
  | nil =>
    cases h
    exact hin
  | cons e rest ih =>
    rw [indexTop] at h
    split at h
    · rcases Run.result_bind_eq_ok_iff.1 h with ⟨inner, hinner, h⟩
      exact ih (indexPackage_filed e hin hinner) h
    · rw [Run.result_report_bind] at h
      exact ih hin h

theorem ofDocument_coherent {d : Xmi.Document} {m : Model}
    (h : (ofDocument d).result = .ok m) : m.Coherent := by
  rw [ofDocument, Run.result_report_bind] at h
  rcases Run.result_bind_eq_ok_iff.1 h with ⟨packages, hpackages, h⟩
  have hfiled : FiledByName packages := indexTop_filed filedByName_empty hpackages
  split at h
  · rcases Run.result_bind_eq_ok_iff.1 h with ⟨_, hthrow, -⟩
    cases hthrow
  · dsimp only at h
    rw [Run.result_bind] at h
    cases h
    exact hfiled

theorem IsLoaded.coherent {m : Model} (h : m.IsLoaded) : m.Coherent := by
  rcases h with ⟨bytes, h⟩
  rw [load] at h
  rcases Run.result_bind_eq_ok_iff.1 h with ⟨document, -, h⟩
  exact ofDocument_coherent h

/-! ## Looking up -/

theorem Coherent.id_eq {m : Model} (hm : m.Coherent) {id : Identifier} {e : Entry}
    (h : m.find? id = some e) : e.id = id := by
  simp only [find?, bind, Option.bind_eq_some_iff] at h
  rcases h with ⟨name, -, p, hp, he⟩
  exact (hm name p hp).2 id e he

/-! ## A document and its model -/

theorem decodeDocument_toUTF8 (document : String) :
    decodeDocument document.toUTF8 =
      (Xmi.Document.parse document).mapError (.malformed ∘ .document) := by
  unfold decodeDocument
  rw [Utf8.decode_toUTF8]
  rfl

theorem load_toUTF8 (document : String) :
    (load document.toUTF8).result =
      (Xmi.Document.parse document).mapError (.malformed ∘ .document) >>= fun d =>
        (ofDocument d).result := by
  unfold load
  rw [Run.result_bind, Run.result_ofExcept, decodeDocument_toUTF8]

theorem scan_ofList (cs : List Char) :
    Xml.Token.scan (String.ofList cs) = Xml.Token.joinFrom [] []
      (match cs with
        | '\uFEFF' :: rest => Xml.Token.itemsFrom [] rest
        | cs => Xml.Token.itemsFrom [] cs) := by
  unfold Xml.Token.scan
  rewrite [String.toList_ofList]
  rfl

/-- What comes of a document that is given by its characters can be computed from them. -/
theorem load_ofList {cs : List Char} {m : Model}
    (h : ((Xmi.Document.ofContent (.ofTokens (Xml.Token.joinFrom [] []
      (match cs with
        | '\uFEFF' :: rest => Xml.Token.itemsFrom [] rest
        | cs => Xml.Token.itemsFrom [] cs)))).mapError (.malformed ∘ .document) >>= fun d =>
          (ofDocument d).result : Except ModelError Model).toOption = some m) :
    (load (String.ofList cs).toUTF8).result = .ok m := by
  rw [load_toUTF8]
  unfold Xmi.Document.parse Xml.Content.ofDocument
  rw [scan_ofList]
  exact eq_ok_of_toOption h

/-- A document with two packages: records that extend one another, refer to themselves and to each
other. -/
def sampleDocument : String :=
  "<XMI><Model>
    <packagedElement type='uml:Package' name='common'>
      <packagedElement type='uml:PrimitiveType' id='ID_common.Text' name='Text'/>
      <packagedElement type='uml:Class' id='ID_common.Named' name='Named'>
        <ownedAttribute name='label'><type idref='ID_common.Text'/></ownedAttribute>
      </packagedElement>
      <packagedElement type='uml:Class' id='ID_common.Ping' name='Ping'>
        <ownedAttribute name='pong'><type idref='ID_common.Pong'/></ownedAttribute>
      </packagedElement>
      <packagedElement type='uml:Class' id='ID_common.Pong' name='Pong'>
        <ownedAttribute name='ping'><type idref='ID_common.Ping'/></ownedAttribute>
      </packagedElement>
    </packagedElement>
    <packagedElement type='uml:Package' name='flight'>
      <packagedElement type='uml:Class' id='ID_flight.Node' name='Node'>
        <generalization general='ID_common.Named'/>
        <ownedAttribute name='code'><type idref='ID_common.Text'/></ownedAttribute>
        <ownedAttribute name='next'><type idref='ID_flight.Node'/></ownedAttribute>
      </packagedElement>
    </packagedElement>
  </Model></XMI>"

/-- The model that the document holds. -/
def sample : Model where
  packages := Table.ofList
    [("common", ⟨"common", Table.ofList
      [("ID_common.Text", ⟨"ID_common.Text", "uml:PrimitiveType", "Text", [], [], none⟩),
       ("ID_common.Named", ⟨"ID_common.Named", "uml:Class", "Named", [],
         [⟨"label", "ID_common.Text", "1", "1"⟩], none⟩),
       ("ID_common.Ping", ⟨"ID_common.Ping", "uml:Class", "Ping", [],
         [⟨"pong", "ID_common.Pong", "1", "1"⟩], none⟩),
       ("ID_common.Pong", ⟨"ID_common.Pong", "uml:Class", "Pong", [],
         [⟨"ping", "ID_common.Ping", "1", "1"⟩], none⟩)]⟩),
     ("flight", ⟨"flight", Table.ofList
      [("ID_flight.Node", ⟨"ID_flight.Node", "uml:Class", "Node", [],
         [⟨"code", "ID_common.Text", "1", "1"⟩, ⟨"next", "ID_flight.Node", "1", "1"⟩],
         some "ID_common.Named"⟩)]⟩)]

set_option maxRecDepth 100000 in
theorem load_sampleDocument : (load sampleDocument.toUTF8).result = .ok sample := by
  unfold sampleDocument
  apply load_ofList
  decide +kernel

theorem sample_isLoaded : sample.IsLoaded := ⟨sampleDocument.toUTF8, load_sampleDocument⟩

end Model

end UmlTyping
