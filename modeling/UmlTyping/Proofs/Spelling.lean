import UmlTyping.Proofs.Naming
import UmlTyping.Proofs.Unescaping

/-!
# How names are spelled

Python wants an identifier for what is imported from `typing`, for the name of a module, for a
sibling module in an import, for what is defined, and for a field that stands in a class. The names
that a model has for these (`Offered`) are taken as they are: a package is named by a segment of an
identifier, an entry by its name, a field by the name of an attribute. Nothing asks how they are
spelled. Only a field that is named like a keyword is kept out of classes, with all fields beside
it.

So the names are identifiers exactly if what the roots lead to is named by identifiers
(`namesSpelled_iff`). Less is enough for the lines of source text to show the names at all
(`Legible`).
-/

namespace UmlTyping

namespace Source

/-- What a name in source text is for. -/
inductive NamePosition
  /-- It is imported from `typing`. -/
  | typing
  /-- It is the name of a module. -/
  | module
  /-- It is imported as a sibling module. -/
  | sibling
  /-- It is defined. -/
  | definition
  /-- It is a field in a class. -/
  | field
deriving DecidableEq

/-- The characters that part a line of source text, or end it. -/
def marks : List Char :=
  lineBreaks ++ [' ', '\t', '\x0c', '"', '\'', '\\', '#', '(', ')', '[', ']', '\x7b', '\x7d', ',',
    ':', ';', '=', '.']

/-- Whether a text is a single word wherever it stands in a line. -/
def isWord (name : String) : Bool := name.toList.all (· ∉ marks)

theorem isWord_helperName {name : String} : isWord (helperName name) = true ↔ isWord name = true := by
  have hunderscore : '_' ∉ marks := by decide
  simp [isWord, helperName, hunderscore]

theorem not_mem_of_isWord {name : String} (h : isWord name = true) {c : Char} (hc : c ∈ marks) :
    c ∉ name.toList := by
  intro hmem
  exact of_decide_eq_true (List.all_eq_true.1 h c hmem) hc

/-- The characters that names are spelled with. Beyond ASCII they are left open. -/
structure Alphabet where
  /-- The characters that a name may start with. -/
  starts : Char → Bool
  /-- The characters that may follow. -/
  continues : Char → Bool
  /-- In ASCII, a name starts with a letter or an underscore. -/
  starts_eq : ∀ c : Char, c.toNat < 128 → starts c = (c.isAlpha || c = '_')
  /-- In ASCII, digits may follow as well. -/
  continues_eq : ∀ c : Char, c.toNat < 128 → continues c = (c.isAlphanum || c = '_')

namespace Alphabet

variable (A : Alphabet)

/-- Whether a text is spelled like a name. -/
def spells (name : String) : Bool :=
  match name.toList with
  | [] => false
  | c :: cs => A.starts c && cs.all A.continues

/-- Whether a text can be given as a name. -/
def isIdentifier (name : String) : Bool := A.spells name && name ∉ keywords

/-- The alphabet without characters beyond ASCII. -/
def ascii : Alphabet where
  starts c := c.isAlpha || c = '_'
  continues c := c.isAlphanum || c = '_'
  starts_eq _ _ := rfl
  continues_eq _ _ := rfl

theorem isIdentifier_of_mem_keywords {name : String} (h : name ∈ keywords) :
    A.isIdentifier name = false := by
  simp [isIdentifier, h]

/-- The ASCII characters of a name are letters, digits, and underscores. -/
theorem isAlphanum_of_spells {name : String} (h : A.spells name = true) {c : Char}
    (hc : c ∈ name.toList) (hascii : c.toNat < 128) : (c.isAlphanum || c = '_') = true := by
  unfold spells at h
  split at h
  · cases h
  next first rest hcons =>
    rw [hcons] at hc
    obtain ⟨hstart, hrest⟩ := Bool.and_eq_true_iff.1 h
    rcases List.mem_cons.1 hc with rfl | hc
    · rw [A.starts_eq _ hascii] at hstart
      -- a letter is a letter or a digit
      simp only [Char.isAlphanum, Bool.or_eq_true] at hstart ⊢
      exact hstart.imp_left Or.inl
    · rw [← A.continues_eq _ hascii]
      exact List.all_eq_true.1 hrest _ hc

theorem isAlphanum_of_mem {name : String} (h : A.isIdentifier name = true) {c : Char}
    (hc : c ∈ name.toList) (hascii : c.toNat < 128) : (c.isAlphanum || c = '_') = true :=
  A.isAlphanum_of_spells (Bool.and_eq_true_iff.1 h).1 hc hascii

/-- No name has a mark in it. -/
theorem not_mem_of_spells {name : String} (h : A.spells name = true) {c : Char}
    (hmark : c.toNat < 128 ∧ (c.isAlphanum || c = '_') = false) : c ∉ name.toList := by
  intro hc
  have hletter := A.isAlphanum_of_spells h hc hmark.1
  exact Bool.false_ne_true (hmark.2.symm.trans hletter)

theorem isWord_of_spells {name : String} (h : A.spells name = true) : isWord name = true := by
  have hmarks : marks.all (fun c => c.toNat < 128 ∧ (c.isAlphanum || c = '_') = false) = true := by
    decide
  refine List.all_eq_true.2 fun c hc => decide_eq_true fun hmark => ?_
  exact A.not_mem_of_spells h (of_decide_eq_true (List.all_eq_true.1 hmarks c hmark)) hc

/-- An identifier without characters beyond ASCII is one in any alphabet. -/
theorem isIdentifier_of_ascii {name : String} (h : ascii.isIdentifier name = true)
    (hascii : ∀ c ∈ name.toList, c.toNat < 128) : A.isIdentifier name = true := by
  unfold isIdentifier spells at h ⊢
  cases hname : name.toList with
  | nil => simp [hname] at h
  | cons c cs =>
    rw [hname, List.forall_mem_cons] at hascii
    have hcontinues : cs.all A.continues = cs.all ascii.continues := by
      rw [Bool.eq_iff_iff, List.all_eq_true, List.all_eq_true]
      refine forall₂_congr fun c hc => ?_
      rw [A.continues_eq c (hascii.2 c hc)]
      rfl
    have hstarts : A.starts c = ascii.starts c := A.starts_eq c hascii.1
    simpa only [hname, hstarts, hcontinues] using h

theorem isIdentifier_of_mem_typingNames {name : String} (h : name ∈ typingNames) :
    A.isIdentifier name = true := by
  have hall : typingNames.all (fun name => ascii.isIdentifier name &&
      name.toList.all (·.toNat < 128)) = true := by
    decide
  obtain ⟨hname, hascii⟩ := Bool.and_eq_true_iff.1 (List.all_eq_true.1 hall name h)
  exact A.isIdentifier_of_ascii hname fun c hc =>
    of_decide_eq_true (List.all_eq_true.1 hascii c hc)

/-- If names may go on with what they may start with, the name of a helper is spelled like that of
the record. No keyword is the name of a helper. -/
theorem isIdentifier_helperName (hA : ∀ c, A.starts c = true → A.continues c = true) {name : String}
    (h : A.spells name = true) : A.isIdentifier (helperName name) = true := by
  have htext : (helperName name).toList = '_' :: name.toList := by
    simp [helperName]
  have hkeywords : ∀ k ∈ keywords, k.toList.head? ≠ some '_' := by decide
  have hkeyword : helperName name ∉ keywords := by
    intro hmem
    apply hkeywords _ hmem
    rw [htext, List.head?_cons]
  have hunderscore : A.starts '_' = true := A.starts_eq '_' (by decide)
  unfold isIdentifier spells at *
  rw [htext]
  cases hname : name.toList with
  | nil => simp [hname] at h
  | cons c cs =>
    simp only [hname, Bool.and_eq_true] at h
    simp [hunderscore, hA c h.1, h.2, hkeyword]

end Alphabet

end Source

/-- The short name of a package is a single segment. -/
theorem Identifier.dot_not_mem_package {id : Identifier} {p : String} (h : id.package? = some p) :
    '.' ∉ p.toList := by
  obtain ⟨path, -, rfl⟩ := Option.map_eq_some_iff.1 h
  rw [String.toList_ofList]
  exact dot_not_mem_lastSegment path.toList

namespace Entry

variable {m : Model} {e : Entry} {d : Definition}

/-- The attributes of an entry are fields in a class: it is a record, and none of them is named like
a keyword. -/
def hasClassFields (e : Entry) : Bool :=
  e.tag = Kind.record.tag && !e.attributes.any (·.name ∈ Source.keywords)

theorem not_mem_keywords (h : e.hasClassFields = true) {a : Attribute} (ha : a ∈ e.attributes) :
    a.name ∉ Source.keywords := by
  intro hkeyword
  have hany : e.attributes.any (·.name ∈ Source.keywords) = true :=
    List.any_eq_true.2 ⟨a, ha, decide_eq_true hkeyword⟩
  simp [hasClassFields, hany] at h

/-- The definition shows whether its fields stand in a class. -/
theorem DefinedAs.hasClassFields_iff (h : DefinedAs m e d) : e.hasClassFields = true ↔
    d.kind = .record ∧ Source.needsMapping d.fields = false := by
  unfold hasClassFields
  rw [Bool.and_eq_true, decide_eq_true_iff, ← h.kind_eq_iff, Bool.not_eq_true']
  refine and_congr_right fun hkind => ?_
  rw [(h.record hkind).needsMapping_eq]

end Entry

namespace Model

open Source (NamePosition)

/-- The model has a name for a position in the source that is generated from some roots. -/
inductive Offered (m : Model) (roots : List Identifier) : NamePosition → String → Prop
  | typing {id : Identifier} {name : String} : m.Reachable roots id → name ∈ Source.typingNames →
    Offered m roots .typing name
  | module {id : Identifier} {p : String} : m.Reachable roots id → id.package? = some p →
    Offered m roots .module p
  | sibling {p q : String} : m.PackageNeeds roots p q → Offered m roots .sibling q
  | definition {id : Identifier} {e : Entry} {name : String} : m.Reachable roots id →
    m.find? id = some e → name ∈ e.boundNames → Offered m roots .definition name
  | field {id : Identifier} {e : Entry} {a : Attribute} : m.Reachable roots id →
    m.find? id = some e → e.hasClassFields = true → a ∈ e.attributes →
    Offered m roots .field a.name

/-- What the roots lead to is named by identifiers: packages, entries, and the attributes that are
fields in a class. -/
structure NamesSpelled (A : Source.Alphabet) (m : Model) (roots : List Identifier) : Prop where
  /-- The segments that name packages. -/
  packages : ∀ id p, m.Reachable roots id → id.package? = some p → A.isIdentifier p = true
  /-- The names of entries. -/
  entries : ∀ id e, m.Reachable roots id → m.find? id = some e → A.isIdentifier e.name = true
  /-- The names of attributes. Keywords cannot be among them. -/
  attributes : ∀ id e, m.Reachable roots id → m.find? id = some e → e.hasClassFields = true →
    ∀ a ∈ e.attributes, A.spells a.name = true

/-- The literals of the enumerations that the roots lead to stand for themselves between quotes. -/
def LiteralsPlain (m : Model) (roots : List Identifier) : Prop :=
  ∀ id e, m.Reachable roots id → m.find? id = some e → e.tag = Kind.enumeration.tag →
    ∀ l ∈ e.literals, Source.isPlain l.toList = true

/-- The source that is generated from some roots shows the names of the model in its lines. -/
structure Legible (m : Model) (roots : List Identifier) : Prop where
  /-- What the roots lead to is named by words. -/
  words : ∀ position name, m.Offered roots position name → Source.isWord name = true
  /-- No literal ends its line, or its quotes. -/
  literals : m.LiteralsPlain roots

variable {m : Model} {roots : List Identifier} {name : String}

theorem offered_of_packageNeeds {p q : String} (h : m.PackageNeeds roots p q) :
    m.Offered roots .module p := by
  obtain ⟨-, a, b, ha, hb, hp, -⟩ := h
  exact .module ha hp

theorem Offered.of_sibling (h : m.Offered roots .sibling name) : m.Offered roots .module name := by
  cases h with
  | sibling hneeds =>
    obtain ⟨-, a, b, ha, hb, -, hq⟩ := hneeds
    exact .module (ha.step hb) hq

/-- A package is named by a single segment. -/
theorem Offered.dot_not_mem (h : m.Offered roots .module name) : '.' ∉ name.toList := by
  cases h with
  | module _ hp => exact Identifier.dot_not_mem_package hp

theorem Offered.not_mem_keywords (h : m.Offered roots .field name) : name ∉ Source.keywords := by
  cases h with
  | field _ _ hclass ha => exact Entry.not_mem_keywords hclass ha

/-- What holds of the names of packages, entries and fields holds for all positions, if it holds of
the names of `typing` and passes from a record to its helper. -/
theorem forall_offered {P : String → Prop} (htyping : ∀ name ∈ Source.typingNames, P name)
    (hhelper : ∀ name, P name → P (Source.helperName name))
    (hpackages : ∀ id p, m.Reachable roots id → id.package? = some p → P p)
    (hentries : ∀ id e, m.Reachable roots id → m.find? id = some e → P e.name)
    (hattributes : ∀ id e, m.Reachable roots id → m.find? id = some e → e.hasClassFields = true →
      ∀ a ∈ e.attributes, P a.name) :
    ∀ position name, m.Offered roots position name → P name := by
  have hmodule : ∀ p, m.Offered roots .module p → P p := by
    intro p hp
    cases hp with
    | module hid hp => exact hpackages _ _ hid hp
  intro position name hname
  cases position with
  | typing =>
    cases hname with
    | typing _ hname => exact htyping name hname
  | module => exact hmodule name hname
  | sibling => exact hmodule name hname.of_sibling
  | definition =>
    cases hname with
    | definition hid he hbound =>
      have hentry := hentries _ _ hid he
      rcases Entry.mem_boundNames.1 hbound with rfl | ⟨-, rfl⟩
      · exact hentry
      · exact hhelper _ hentry
  | field =>
    cases hname with
    | field hid he hclass ha => exact hattributes _ _ hid he hclass _ ha

/-- The names for all positions are identifiers exactly if what the roots lead to is named by
identifiers. -/
theorem namesSpelled_iff {A : Source.Alphabet} (hA : ∀ c, A.starts c = true → A.continues c = true) :
    m.NamesSpelled A roots ↔
      ∀ position name, m.Offered roots position name → A.isIdentifier name = true := by
  constructor
  · intro h
    refine forall_offered (fun _ => A.isIdentifier_of_mem_typingNames) ?_ h.packages h.entries ?_
    · intro name hname
      exact A.isIdentifier_helperName hA (Bool.and_eq_true_iff.1 hname).1
    · intro id e hid he hclass a ha
      have hkeyword := Entry.not_mem_keywords hclass ha
      exact Bool.and_eq_true_iff.2 ⟨h.attributes id e hid he hclass a ha, decide_eq_true hkeyword⟩
  · intro h
    refine ⟨fun id p hid hp => h _ _ (.module hid hp), fun id e hid he => ?_,
      fun id e hid he hclass a ha => ?_⟩
    · exact h _ _ (.definition hid he (Entry.mem_boundNames.2 (Or.inl rfl)))
    · exact (Bool.and_eq_true_iff.1 (h _ _ (.field hid he hclass ha))).1

/-- Where names are identifiers and literals stand for themselves, source is legible. -/
theorem NamesSpelled.legible {A : Source.Alphabet} (h : m.NamesSpelled A roots)
    (hliterals : m.LiteralsPlain roots) : m.Legible roots := by
  have hword : ∀ name, A.isIdentifier name = true → Source.isWord name = true :=
    fun name hname => A.isWord_of_spells (Bool.and_eq_true_iff.1 hname).1
  refine ⟨forall_offered ?_ (fun _ => Source.isWord_helperName.2) ?_ ?_ ?_, hliterals⟩
  · exact fun name hname => hword name (A.isIdentifier_of_mem_typingNames hname)
  · exact fun id p hid hp => hword p (h.packages id p hid hp)
  · exact fun id e hid he => hword e.name (h.entries id e hid he)
  · exact fun id e hid he hclass a ha => A.isWord_of_spells (h.attributes id e hid he hclass a ha)

theorem sample_reachable : ∀ id, sample.Reachable ["ID_flight.Node"] id →
    id ∈ ["ID_common.Text", "ID_common.Named", "ID_flight.Node"] := by
  intro id hid
  obtain ⟨ds, hds, hids⟩ := sample_resolve_node
  rw [← hids]
  exact ((ordersClosure_of_resolve sample_isLoaded.coherent hds).mem_iff id).2 hid

theorem sample_namesSpelled : sample.NamesSpelled .ascii ["ID_flight.Node"] := by
  have hpackages : ∀ id ∈ ["ID_common.Text", "ID_common.Named", "ID_flight.Node"],
      ∀ p ∈ Identifier.package? id, Source.Alphabet.ascii.isIdentifier p = true := by
    decide +kernel
  have hentries : ∀ id ∈ ["ID_common.Text", "ID_common.Named", "ID_flight.Node"],
      ∀ e ∈ sample.find? id, Source.Alphabet.ascii.isIdentifier e.name = true ∧
        ∀ a ∈ e.attributes, Source.Alphabet.ascii.spells a.name = true := by
    decide +kernel
  refine ⟨?_, ?_, ?_⟩
  · exact fun id p hid hp => hpackages id (sample_reachable id hid) p hp
  · exact fun id e hid he => (hentries id (sample_reachable id hid) e he).1
  · exact fun id e hid he _ => (hentries id (sample_reachable id hid) e he).2

theorem sample_literalsPlain : sample.LiteralsPlain ["ID_flight.Node"] := by
  have hentries : ∀ id ∈ ["ID_common.Text", "ID_common.Named", "ID_flight.Node"],
      ∀ e ∈ sample.find? id, e.literals = [] := by
    decide +kernel
  intro id e hid he _ l hl
  rw [hentries id (sample_reachable id hid) e he] at hl
  cases hl

end Model

end UmlTyping
