import UmlTyping.Proofs.Importing

/-!
# Names in modules

A generated module has the names that it imports from `typing`, the sibling modules, and for each
entry its name, with a helper in front for a record that has both a base and a field named like a
keyword (`exists_presents`). Names are taken from entries as they are, and nothing compares them. So
they are distinct exactly if the names in the model allow it, which `NamesApart` says in full
(`Presents.nodup_iff`): imports never meet each other, and a helper never meets its own record or a
name of `typing`.
-/

namespace UmlTyping

/-- The names that every module imports first. -/
def Source.typingNames : List String := ["Literal", "TypedDict", "Union"]

/-- The name of the record that takes the fields of another in its place. -/
def Source.helperName (name : String) : String := "_" ++ name

namespace Entry

/-- The fields of the entry are taken by a helper: it is a record with a base and with a field that
is named like a keyword. -/
def hasHelper (e : Entry) : Bool :=
  Kind.ofTag? e.tag = some .record && e.generalization.isSome &&
    e.attributes.any (·.name ∈ Source.keywords)

/-- The names that the definition of an entry binds. -/
def boundNames (e : Entry) : List String :=
  if e.hasHelper then [Source.helperName e.name, e.name] else [e.name]

end Entry

namespace Modules

/-- The names that a module binds which imports some packages and defines some entries. -/
def boundNames (imports : List String) (es : List Entry) : List String :=
  Source.typingNames ++ imports ++ es.flatMap (·.boundNames)

end Modules

/-! ## What is written for an entry -/

/-- The source text of a definition is the one for its kind, its name, and what is in it. -/
def Definition.WrittenFor (d : Definition) (e : Entry) : Prop :=
  match d.kind with
  | .enumeration => d.code = Source.enumeration d.name e.literals
  | .primitive => d.code = Source.primitive d.name
  | .record => d.code = Source.record d.name (d.base.map (·.text)) d.fields

namespace Entry

variable {m : Model} {e : Entry} {d : Definition}

/-- The source text of a definition, by its kind. -/
theorem compile_code (h : (e.compile m).result = .ok d) :
    d.kind = .enumeration ∧ d.code = Source.enumeration e.name e.literals ∨
    d.kind = .primitive ∧ d.code = Source.primitive e.name ∨
    d.kind = .record ∧ d.code = Source.record e.name (d.base.map (·.text)) d.fields := by
  rcases result_compile m e with ⟨-, heq⟩ | ⟨-, -, -, heq⟩ | ⟨kind, owner, -, -, heq⟩
  · rw [heq] at h
    cases h
  · rw [heq] at h
    cases h
  rw [heq] at h
  cases kind with
  | enumeration =>
    unfold outcomeAs compileEnumeration at h
    dsimp only at h
    split at h
    · cases h
    · cases h
      exact Or.inl ⟨rfl, rfl⟩
  | primitive =>
    cases h
    exact Or.inr (Or.inl ⟨rfl, rfl⟩)
  | record =>
    rcases Run.result_bind_eq_ok_iff.1 h with ⟨f, -, h⟩
    rcases Run.result_bind_eq_ok_iff.1 h with ⟨base, -, h⟩
    cases h
    exact Or.inr (Or.inr ⟨rfl, rfl⟩)

theorem writtenFor_of_compile (h : (e.compile m).result = .ok d) : d.WrittenFor e := by
  have hname : d.name = e.name := (compile_eq_ok h).name_eq
  unfold Definition.WrittenFor
  rcases compile_code h with ⟨hkind, hcode⟩ | ⟨hkind, hcode⟩ | ⟨hkind, hcode⟩
  · rw [hkind, hname]
    exact hcode
  · rw [hkind, hname]
    exact hcode
  · rw [hkind, hname]
    exact hcode

/-- The kind of a definition shows in the tag of its entry. -/
theorem DefinedAs.kind_eq_iff (h : DefinedAs m e d) {k : Kind} : d.kind = k ↔ e.tag = k.tag := by
  rw [← Kind.ofTag?_eq_some_iff, h.kind_eq, Option.some.injEq]

/-- The fields of a record have the names of the attributes. -/
theorem RecordAs.map_fields (h : RecordAs m e d) :
    d.fields.map (·.1) = e.attributes.map (·.name) := by
  rw [← List.forall₂_eq_eq_eq, List.forall₂_map_left_iff, List.forall₂_map_right_iff]
  refine h.fields.flip.imp ?_
  rintro field a ⟨t, dependency, -, rfl⟩
  rfl

/-- Whether the fields need a mapping is a matter of their names, which are those of attributes. -/
theorem RecordAs.needsMapping_eq (h : RecordAs m e d) :
    Source.needsMapping d.fields = e.attributes.any (·.name ∈ Source.keywords) := by
  have hmap : (d.fields.map (·.1)).any (· ∈ Source.keywords) =
      (e.attributes.map (·.name)).any (· ∈ Source.keywords) := by
    rw [h.map_fields]
  rw [List.any_map, List.any_map] at hmap
  exact hmap

theorem RecordAs.isSome_base (h : RecordAs m e d) :
    d.base.isSome = e.generalization.isSome := by
  rcases resolveBase_eq_ok h.base with ⟨hnone, hbase⟩ | ⟨general, r, hgeneral, hbase, -, -⟩
  · rw [hnone, hbase]
    rfl
  · rw [hgeneral, hbase]
    rfl

/-- A definition has a helper as its entry says. -/
theorem DefinedAs.hasHelper_eq (h : DefinedAs m e d) :
    e.hasHelper = (Source.needsMapping d.fields && d.base.isSome) := by
  unfold hasHelper
  rw [h.kind_eq]
  by_cases hkind : d.kind = .record
  · have hrecord := h.record hkind
    rw [hrecord.needsMapping_eq, hrecord.isSome_base]
    simp [hkind, Bool.and_comm]
  · rw [(h.plain hkind).1]
    simp [hkind, Source.needsMapping]

end Entry

/-! ## When bound names are distinct -/

theorem Source.helperName_ne (name : String) : Source.helperName name ≠ name := by
  intro h
  have hlength := congrArg String.length h
  simp [Source.helperName] at hlength

theorem Source.helperName_inj {name other : String} :
    Source.helperName name = Source.helperName other ↔ name = other :=
  String.append_right_inj "_"

theorem Source.helperName_not_mem_typingNames (name : String) :
    Source.helperName name ∉ Source.typingNames := by
  intro h
  have hchars := List.mem_map_of_mem (f := String.toList) h
  simp [Source.helperName, Source.typingNames] at hchars

theorem Entry.mem_boundNames {e : Entry} {name : String} : name ∈ e.boundNames ↔
    name = e.name ∨ e.hasHelper = true ∧ name = Source.helperName e.name := by
  unfold Entry.boundNames
  cases e.hasHelper with
  | false => simp
  | true => simp [or_comm]

theorem Entry.nodup_boundNames (e : Entry) : e.boundNames.Nodup := by
  unfold Entry.boundNames
  cases e.hasHelper with
  | false => simp
  | true => simp [Source.helperName_ne]

lemma nodup_flatMap_iff {α β : Type} {f : α → List β} {l : List α} (hl : l.Nodup)
    (hf : ∀ a, (f a).Nodup) :
    (l.flatMap f).Nodup ↔ ∀ a ∈ l, ∀ b ∈ l, a ≠ b → (f a).Disjoint (f b) := by
  rw [List.nodup_flatMap]
  have hsymm : Std.Symm (Function.onFun List.Disjoint f) :=
    ⟨fun _ _ h => List.disjoint_symm h⟩
  constructor
  · rintro ⟨-, hpairwise⟩ a ha b hb hne
    exact hpairwise.forall ha hb hne
  · intro hdisjoint
    exact ⟨fun a _ => hf a, hl.pairwise_of_forall_ne hdisjoint⟩

namespace Model

variable {m : Model} {roots : List Identifier} {ds : List Definition} {ms : Modules}
  {p content : String} {imports : List String} {es : List Entry}

/-- The roots lead to an entry of the package `p`. -/
def InModule (m : Model) (roots : List Identifier) (p : String) (e : Entry) : Prop :=
  ∃ id, m.Reachable roots id ∧ id.package? = some p ∧ m.find? id = some e

/-- Entries that share a package have different names. -/
def NamesDiffer (m : Model) (roots : List Identifier) (p : String) : Prop :=
  ∀ e e', m.InModule roots p e → m.InModule roots p e' → e.name = e'.name → e = e'

/-- The names of a package leave each other alone. -/
structure NamesApart (m : Model) (roots : List Identifier) (p : String) : Prop where
  differ : m.NamesDiffer roots p
  /-- No entry is named like the helper of another. -/
  helper : ∀ e e', m.InModule roots p e → m.InModule roots p e' → e.hasHelper = true →
    Source.helperName e.name ≠ e'.name
  /-- No entry takes a name of `typing`. -/
  typing : ∀ e, m.InModule roots p e → e.name ∉ Source.typingNames
  /-- No package that is imported takes a name of `typing`. -/
  sibling_typing : ∀ q, m.PackageNeeds roots p q → q ∉ Source.typingNames
  /-- No entry is named like a package that is imported. -/
  sibling : ∀ e q, m.InModule roots p e → m.PackageNeeds roots p q → q ≠ e.name
  /-- No helper is named like a package that is imported. -/
  sibling_helper : ∀ e q, m.InModule roots p e → e.hasHelper = true → m.PackageNeeds roots p q →
    q ≠ Source.helperName e.name

/-- The module of a package imports the packages that it needs, and defines its entries, each
once. -/
structure Presents (m : Model) (roots : List Identifier) (p content : String)
    (imports : List String) (es : List Entry) : Prop where
  /-- The source text is that of the imports and of a definition for each entry. -/
  text : ∃ defs, List.Forall₂ (fun e d => (e.compile m).result = .ok d ∧ d.WrittenFor e) es defs ∧
    content = Modules.layout imports (defs.map (·.code))
  mem_imports : ∀ q, q ∈ imports ↔ m.PackageNeeds roots p q
  nodup_imports : imports.Nodup
  mem_entries : ∀ e, e ∈ es ↔ m.InModule roots p e
  nodup_entries : es.Nodup

/-- The names of entries and their helpers are distinct exactly if entries have different names, and
none has the name of a helper. -/
theorem nodup_flatMap_boundNames_iff (hes : es.Nodup) : (es.flatMap (·.boundNames)).Nodup ↔
    (∀ e ∈ es, ∀ e' ∈ es, e.name = e'.name → e = e') ∧
      ∀ e ∈ es, ∀ e' ∈ es, e.hasHelper = true → Source.helperName e.name ≠ e'.name := by
  rw [nodup_flatMap_iff hes Entry.nodup_boundNames]
  constructor
  · intro hdisjoint
    constructor
    · intro e he e' he' hname
      by_contra hne
      exact hdisjoint e he e' he' hne (Entry.mem_boundNames.2 (Or.inl rfl))
        (Entry.mem_boundNames.2 (Or.inl hname))
    · intro e he e' he' hhelper hname
      have hne : e ≠ e' := by
        rintro rfl
        exact Source.helperName_ne e.name hname
      exact hdisjoint e he e' he' hne (Entry.mem_boundNames.2 (Or.inr ⟨hhelper, rfl⟩))
        (Entry.mem_boundNames.2 (Or.inl hname))
  · rintro ⟨hdiffer, hapart⟩ e he e' he' hne name hname hname'
    rcases Entry.mem_boundNames.1 hname with rfl | ⟨hhelper, rfl⟩
    · rcases Entry.mem_boundNames.1 hname' with heq | ⟨hhelper', heq⟩
      · exact hne (hdiffer e he e' he' heq)
      · exact hapart e' he' e he hhelper' heq.symm
    · rcases Entry.mem_boundNames.1 hname' with heq | ⟨-, heq⟩
      · exact hapart e he e' he' hhelper heq
      · exact hne (hdiffer e he e' he' (Source.helperName_inj.1 heq))

/-- What a module imports is distinct unless a package takes a name of `typing`. -/
theorem nodup_imported_iff (himports : imports.Nodup) :
    (Source.typingNames ++ imports).Nodup ↔ ∀ q ∈ imports, q ∉ Source.typingNames := by
  have htyping : Source.typingNames.Nodup := by decide
  rw [List.nodup_append', and_iff_right htyping, and_iff_right himports]
  exact List.disjoint_right

/-- What a module imports and what it defines are apart exactly if no entry is named like something
imported, and no helper like a package. -/
theorem disjoint_flatMap_boundNames_iff :
    (Source.typingNames ++ imports).Disjoint (es.flatMap (·.boundNames)) ↔
      (∀ e ∈ es, e.name ∉ Source.typingNames) ∧ (∀ e ∈ es, e.name ∉ imports) ∧
        ∀ e ∈ es, e.hasHelper = true → Source.helperName e.name ∉ imports := by
  rw [List.disjoint_right]
  constructor
  · intro hapart
    have hown : ∀ e ∈ es, ∀ name ∈ e.boundNames, name ∉ Source.typingNames ++ imports := by
      intro e he name hname
      exact hapart (List.mem_flatMap.2 ⟨e, he, hname⟩)
    have hname : ∀ e ∈ es, e.name ∉ Source.typingNames ++ imports := by
      intro e he
      exact hown e he e.name (Entry.mem_boundNames.2 (Or.inl rfl))
    refine ⟨?_, ?_, ?_⟩
    · intro e he hmem
      exact hname e he (List.mem_append_left _ hmem)
    · intro e he hmem
      exact hname e he (List.mem_append_right _ hmem)
    · intro e he hhelper hmem
      have hbound := Entry.mem_boundNames.2 (Or.inr ⟨hhelper, rfl⟩)
      exact hown e he _ hbound (List.mem_append_right _ hmem)
  · rintro ⟨htyping, hsibling, hhelper⟩ name hname hbefore
    rcases List.mem_flatMap.1 hname with ⟨e, he, hname⟩
    rcases Entry.mem_boundNames.1 hname with rfl | ⟨hhas, rfl⟩
    · rcases List.mem_append.1 hbefore with hmem | hmem
      · exact htyping e he hmem
      · exact hsibling e he hmem
    · -- a helper starts with an underscore, so only a package can have its name
      rcases List.mem_append.1 hbefore with hmem | hmem
      · exact Source.helperName_not_mem_typingNames e.name hmem
      · exact hhelper e he hhas hmem

/-- A module binds each name once exactly if the names of its package leave each other alone. -/
theorem Presents.nodup_iff (h : m.Presents roots p content imports es) :
    (Modules.boundNames imports es).Nodup ↔ m.NamesApart roots p := by
  unfold Modules.boundNames
  rw [List.nodup_append', nodup_imported_iff h.nodup_imports,
    nodup_flatMap_boundNames_iff h.nodup_entries, disjoint_flatMap_boundNames_iff]
  simp only [h.mem_imports, h.mem_entries]
  constructor
  · rintro ⟨hpackages, ⟨hdiffer, hhelper⟩, htyping, hsibling, hhelpers⟩
    refine ⟨?_, ?_, htyping, hpackages, ?_, ?_⟩
    · intro e e' he he'
      exact hdiffer e he e' he'
    · intro e e' he he'
      exact hhelper e he e' he'
    · rintro e q he hq rfl
      exact hsibling e he hq
    · rintro e q he hhas hq rfl
      exact hhelpers e he hhas hq
  · intro hapart
    refine ⟨hapart.sibling_typing, ⟨?_, ?_⟩, hapart.typing, ?_, ?_⟩
    · intro e he e' he'
      exact hapart.differ e e' he he'
    · intro e he e' he'
      exact hapart.helper e e' he he'
    · intro e he hq
      exact hapart.sibling e _ he hq rfl
    · intro e he hhas hq
      exact hapart.sibling_helper e _ he hhas hq rfl

/-! ## The names of generated modules -/

/-- The entry of each definition in a list. -/
def entriesOf (m : Model) (ds : List Definition) : List Entry :=
  ds.filterMap fun d => m.find? d.id

/-- Each definition is the one for its entry, and is written for it. -/
theorem forall₂_entriesOf
    (h : ∀ d ∈ ds, ∃ e, m.find? d.id = some e ∧ (e.compile m).result = .ok d) :
    List.Forall₂ (fun e d => (e.compile m).result = .ok d ∧ d.WrittenFor e)
      (m.entriesOf ds) ds := by
  induction ds with
  | nil => exact .nil
  | cons d rest ih =>
    rcases h d List.mem_cons_self with ⟨e, he, hcompile⟩
    have hentries : m.entriesOf (d :: rest) = e :: m.entriesOf rest := List.filterMap_cons_some he
    rw [hentries]
    exact .cons ⟨hcompile, Entry.writtenFor_of_compile hcompile⟩
      (ih fun d hd => h d (List.mem_cons_of_mem _ hd))

section Closure

variable (h : OrdersClosure m roots ds)

include h

/-- The definitions of a package are those of its entries that the roots lead to. -/
theorem mem_entriesOf_iff {e : Entry} :
    e ∈ m.entriesOf (ds.filter (·.package = p)) ↔ m.InModule roots p e := by
  unfold entriesOf
  rw [List.mem_filterMap]
  constructor
  · rintro ⟨d, hd, he⟩
    rcases mem_filter_package.1 hd with ⟨hmem, rfl⟩
    exact ⟨d.id, h.reachable hmem, h.package?_eq hmem, he⟩
  · rintro ⟨id, hreachable, hp, he⟩
    rcases h.exists_definition hreachable hp with ⟨d, hd, rfl, hown⟩
    exact ⟨d, mem_filter_package.2 ⟨hd, hown⟩, he⟩

/-- Definitions of the same entry are the same. -/
theorem OrdersClosure.eq_of_find? (hm : m.Coherent) {d d' : Definition} {e : Entry} (hd : d ∈ ds)
    (hd' : d' ∈ ds) (he : m.find? d.id = some e) (he' : m.find? d'.id = some e) : d = d' := by
  have hid : d.id = d'.id := (hm.id_eq he).symm.trans (hm.id_eq he')
  exact List.inj_on_of_nodup_map h.nodup hd hd' hid

theorem nodup_entriesOf (hm : m.Coherent) : (m.entriesOf (ds.filter (·.package = p))).Nodup := by
  have hnodup : (ds.filter (·.package = p)).Nodup := h.nodup.of_map.filter _
  unfold entriesOf
  rw [List.Nodup, List.pairwise_filterMap]
  refine hnodup.imp_of_mem ?_
  rintro d d' hd hd' hne e he e' he' rfl
  exact hne (h.eq_of_find? hm (mem_filter_package.1 hd).1 (mem_filter_package.1 hd').1 he he')

/-- Definitions that share a package have different names exactly if their entries do. -/
theorem pairwise_names_iff (hm : m.Coherent) :
    ds.Pairwise (fun d d' => ¬ (d.package = d'.package ∧ d.name = d'.name)) ↔
      ∀ p, m.NamesDiffer roots p := by
  have hsymm : Std.Symm fun d d' : Definition => ¬ (d.package = d'.package ∧ d.name = d'.name) :=
    ⟨fun _ _ hnot hsame => hnot ⟨hsame.1.symm, hsame.2.symm⟩⟩
  constructor
  · rintro hpairwise p e e' ⟨id, hid, hp, he⟩ ⟨id', hid', hp', he'⟩ hname
    rcases h.exists_definition hid hp with ⟨d, hd, rfl, hown⟩
    rcases h.exists_definition hid' hp' with ⟨d', hd', rfl, hown'⟩
    have hsame : d.name = d'.name := by
      rw [(h.name_package hd he hp).1, (h.name_package hd' he' hp').1, hname]
    by_contra hne
    have hapart : d ≠ d' := by
      rintro rfl
      exact hne (Option.some.inj (he.symm.trans he'))
    exact hpairwise.forall hd hd' hapart ⟨hown.trans hown'.symm, hsame⟩
  · intro hdiffer
    refine h.nodup.of_map.pairwise_of_forall_ne ?_
    rintro d hd d' hd' hne ⟨hpackage, hname⟩
    rcases h.definedAs hd with ⟨e, he, hdefined⟩
    rcases h.definedAs hd' with ⟨e', he', hdefined'⟩
    rw [hdefined.name_eq, hdefined'.name_eq] at hname
    have hin : m.InModule roots d.package e := ⟨d.id, h.reachable hd, h.package?_eq hd, he⟩
    have hin' : m.InModule roots d.package e' :=
      ⟨d'.id, h.reachable hd', hpackage ▸ h.package?_eq hd', he'⟩
    have hsame : e = e' := hdiffer d.package e e' hin hin' hname
    subst hsame
    exact hne (h.eq_of_find? hm hd hd' he he')

theorem exists_presents (hm : m.Coherent) (hms : ms.ComposedOf (ds.map (·.piece)))
    (hcontent : ms.get? p = some content) :
    ∃ imports es, m.Presents roots p content imports es := by
  rcases hms.isModule p content hcontent with ⟨qs, heq, hascending, hmem⟩
  rw [codesOf_map_piece] at heq
  refine ⟨qs, m.entriesOf (ds.filter (·.package = p)), ?_, ?_, hascending.nodup, ?_, ?_⟩
  · exact ⟨_, forall₂_entriesOf fun d hd => h.compiled d (List.mem_filter.1 hd).1, heq⟩
  · intro q
    rw [hmem, imported_iff_packageNeeds h]
  · intro e
    exact mem_entriesOf_iff h
  · exact nodup_entriesOf h hm

end Closure

end Model

end UmlTyping
