import UmlTyping.Proofs.Composition
import UmlTyping.Proofs.Resolution

/-!
# References in modules

The definitions of a resolution, composed into modules, can be read: a reference is to the record it
stands in, and is then quoted, or to a definition that stands before it, by a name that is in scope.
Three decisions meet here: how a reference is qualified, which dependencies a record has, and which
packages a module imports. `PointsTo` is what the first two have in common, and the imports are
compared with it in `imported_iff`.
-/

namespace UmlTyping

/-- All references of a definition: those of its fields, and that to its base. -/
def Definition.references (d : Definition) : List TypeRef :=
  d.fields.filterMap (·.2.ref?) ++ d.base.toList

namespace Model

variable {m : Model} {roots : List Identifier} {ds : List Definition} {d : Definition}
  {r : TypeRef} {id : Identifier}

/-! ## What a reference stands for -/

/-- A reference of a definition is that of a field, and its attribute refers to the entry `id`. -/
def FieldRefers (m : Model) (d : Definition) (r : TypeRef) (id : Identifier) : Prop :=
  ∃ (e : Entry) (k : Nat) (a : Attribute) (t : TypeExpr), m.find? d.id = some e ∧
    e.attributes[k]? = some a ∧ d.fields[k]? = some (a.name, t) ∧ t.ref? = some r ∧ a.typeRef = id

/-- A reference of a definition is that of the base, which is the entry `id`. -/
def BaseRefers (m : Model) (d : Definition) (r : TypeRef) (id : Identifier) : Prop :=
  ∃ e : Entry, m.find? d.id = some e ∧ e.generalization = some id ∧ d.base = some r

/-- A reference of a definition stands for the entry `id`. -/
def Refers (m : Model) (d : Definition) (r : TypeRef) (id : Identifier) : Prop :=
  m.FieldRefers d r id ∨ m.BaseRefers d r id

/-- How a definition points to an entry: by name, qualified if the entry is in another package, and
quoted if it is the definition's own. Any other entry is a dependency. -/
structure PointsTo (m : Model) (d : Definition) (id : Identifier) (r : TypeRef) : Prop where
  eq_seenFrom : ∃ e package, m.find? id = some e ∧ id.package? = some package ∧
    r = { TypeRef.seenFrom d.package package e.name with forward := decide (id = d.id) }
  mem_dependencies : id ≠ d.id → id ∈ d.dependencies

lemma exists_getElem?_of_forall₂ {α β : Type} {R : α → β → Prop} {xs : List α} {ys : List β}
    {k : Nat} {x : α} (h : List.Forall₂ R xs ys) (hx : xs[k]? = some x) :
    ∃ y, ys[k]? = some y ∧ R x y := by
  rcases List.getElem?_eq_some_iff.1 hx with ⟨hk, rfl⟩
  have hk' : k < ys.length := h.length_eq ▸ hk
  exact ⟨ys[k], List.getElem?_eq_getElem hk', h.get hk hk'⟩

/-- The reference of a field is to the entry that its attribute refers to, on which the attribute
depends. It is quoted if that entry is the record itself. -/
theorem ref?_of_becomes {owner : String} {a : Attribute} {field : String × TypeExpr}
    (h : Fields.Becomes m id owner a field) (hr : field.2.ref? = some r) :
    (∃ t, a.resolve m owner = .ok (t, some a.typeRef)) ∧
      ∃ e package, m.find? a.typeRef = some e ∧ a.typeRef.package? = some package ∧
        r = { TypeRef.seenFrom owner package e.name with forward := decide (a.typeRef = id) } := by
  rcases h with ⟨t, dependency, hresolve, rfl⟩
  rcases Attribute.resolve_eq_ok hresolve with ⟨-, rfl, hnone⟩ | ⟨-, rfl, r₀, hr₀, hto⟩
  · -- a scalar has no reference
    change t.ref? = some r at hr
    rw [hnone] at hr
    cases hr
  · rcases TypeRef.resolve_eq_ok_iff.1 hto with ⟨e, package, he, hpackage, rfl⟩
    refine ⟨⟨t, hresolve⟩, e, package, he, hpackage, ?_⟩
    by_cases hself : a.typeRef = id
    · have href : (Fields.fieldOf id a.name t (some a.typeRef)).2.ref? =
          some { TypeRef.seenFrom owner package e.name with forward := true } := by
        rw [Fields.fieldOf, if_pos (congrArg some hself), TypeExpr.ref?_mapRef, hr₀]
        rfl
      rw [href] at hr
      rw [decide_eq_true hself]
      exact (Option.some.inj hr).symm
    · have href : (Fields.fieldOf id a.name t (some a.typeRef)).2.ref? =
          some (TypeRef.seenFrom owner package e.name) := by
        rw [Fields.fieldOf, if_neg fun h => hself (Option.some.inj h), hr₀]
      rw [href] at hr
      rw [decide_eq_false hself]
      exact (Option.some.inj hr).symm

/-- A field with a dependency has a reference. -/
theorem exists_ref?_of_becomes {owner : String} {a : Attribute} {field : String × TypeExpr}
    {b : Identifier} {t : TypeExpr} (h : Fields.Becomes m id owner a field)
    (hb : a.resolve m owner = .ok (t, some b)) :
    a.typeRef = b ∧ field.1 = a.name ∧ ∃ r, field.2.ref? = some r := by
  rcases h with ⟨t', dependency, hresolve, rfl⟩
  rw [hb] at hresolve
  cases hresolve
  rcases Attribute.resolve_eq_ok hb with ⟨-, hnone, -⟩ | ⟨-, hsome, r, hr, -⟩
  · cases hnone
  · refine ⟨(Option.some.inj hsome).symm, rfl, ?_⟩
    unfold Fields.fieldOf
    split
    · exact ⟨{ r with forward := true }, by rw [TypeExpr.ref?_mapRef, hr]; rfl⟩
    · exact ⟨r, hr⟩

section Defined

variable {e : Entry} (hd : e.DefinedAs m d) (he : m.find? d.id = some e)

include hd

theorem kind_eq_record_of_mem_references (hr : r ∈ d.references) : d.kind = .record := by
  by_contra hne
  rcases hd.plain hne with ⟨hfields, -, hbase⟩
  unfold Definition.references at hr
  rw [hfields, hbase] at hr
  cases hr

include he

/-- The reference of a field points to what its attribute refers to. -/
theorem FieldRefers.pointsTo (h : m.FieldRefers d r id) : m.PointsTo d id r := by
  rcases h with ⟨e', k, a, t, he', ha, hfield, hr, rfl⟩
  cases he.symm.trans he'
  have hmem : r ∈ d.references :=
    List.mem_append_left _ (List.mem_filterMap.2 ⟨_, List.mem_of_getElem? hfield, hr⟩)
  have hrecord := hd.record (kind_eq_record_of_mem_references hd hmem)
  rcases exists_getElem?_of_forall₂ hrecord.fields ha with ⟨field, hfield', hbecomes⟩
  cases hfield.symm.trans hfield'
  rcases ref?_of_becomes hbecomes hr with ⟨⟨t', hresolve⟩, hpoints⟩
  rw [← hd.id_eq] at hpoints
  refine ⟨hpoints, fun hne => (hrecord.mem_dependencies _).2 (Or.inl ⟨?_, a, ?_, t', hresolve⟩)⟩
  · exact hd.id_eq ▸ hne
  · exact List.mem_of_getElem? ha

/-- The reference to the base points to it, and the base is never the record itself. -/
theorem BaseRefers.pointsTo (h : m.BaseRefers d r id) : id ≠ d.id ∧ m.PointsTo d id r := by
  rcases h with ⟨e', he', hgeneral, hbase⟩
  cases he.symm.trans he'
  have hmem : r ∈ d.references := by
    unfold Definition.references
    rw [hbase]
    simp
  have hrecord := hd.record (kind_eq_record_of_mem_references hd hmem)
  rcases hrecord.exists_generalization hbase with ⟨general, hgeneral', hne, hto⟩
  cases hgeneral.symm.trans hgeneral'
  rw [← hd.id_eq] at hne
  rcases TypeRef.resolve_eq_ok_iff.1 hto with ⟨e', package, he', hpackage, hr⟩
  refine ⟨hne, ⟨e', package, he', hpackage, ?_⟩, fun _ => (hrecord.mem_dependencies _).2 ?_⟩
  · rw [decide_eq_false hne]
    exact hr
  · exact Or.inr hgeneral

theorem Refers.pointsTo (h : m.Refers d r id) : m.PointsTo d id r := by
  rcases h with h | h
  · exact h.pointsTo hd he
  · exact (h.pointsTo hd he).2

/-- Every reference of a definition stands for an entry. -/
theorem exists_refers (hr : r ∈ d.references) : ∃ id, m.Refers d r id := by
  have hrecord := hd.record (kind_eq_record_of_mem_references hd hr)
  rcases List.mem_append.1 hr with hr | hr
  · rcases List.mem_filterMap.1 hr with ⟨field, hfield, href⟩
    rcases List.getElem?_of_mem hfield with ⟨k, hk⟩
    rcases exists_getElem?_of_forall₂ hrecord.fields.flip hk with ⟨a, ha, hbecomes⟩
    have hname : field = (a.name, field.2) := by
      rcases hbecomes with ⟨t, dependency, -, rfl⟩
      rfl
    exact ⟨a.typeRef, Or.inl ⟨e, k, a, field.2, he, ha, hname ▸ hk, href, rfl⟩⟩
  · have hbase : d.base = some r := Option.mem_toList.1 hr
    rcases hrecord.exists_generalization hbase with ⟨general, hgeneral, -, -⟩
    exact ⟨general, Or.inr ⟨e, he, hgeneral, hbase⟩⟩

/-- A definition refers to all that it depends on. -/
theorem exists_reference_of_mem_dependencies (hid : id ∈ d.dependencies) :
    ∃ r ∈ d.references, m.Refers d r id := by
  have hkind : d.kind = .record := by
    by_contra hplain
    rw [(hd.plain hplain).2.1] at hid
    cases hid
  have hrecord := hd.record hkind
  rcases (hrecord.mem_dependencies id).1 hid with ⟨-, a, ha, t, hresolve⟩ | hgeneral
  · rcases List.getElem?_of_mem ha with ⟨k, hk⟩
    rcases exists_getElem?_of_forall₂ hrecord.fields hk with ⟨⟨name, t'⟩, hfield, hbecomes⟩
    rcases exists_ref?_of_becomes hbecomes hresolve with ⟨hto, hname, r, hr⟩
    cases hname
    refine ⟨r, ?_, Or.inl ⟨e, k, a, t', he, hk, hfield, hr, hto⟩⟩
    exact List.mem_append_left _ (List.mem_filterMap.2 ⟨_, List.mem_of_getElem? hfield, hr⟩)
  · rcases hrecord.exists_base hgeneral with ⟨r, hbase, -, -⟩
    refine ⟨r, ?_, Or.inr ⟨e, he, hgeneral, hbase⟩⟩
    exact List.mem_append_right _ (Option.mem_toList.2 hbase)

end Defined

/-! ## Modules that can be read -/

/-- A reference of the `i`-th of some definitions, `d`, to the entry `id` can be read in modules. -/
structure SoundReference (m : Model) (ds : List Definition) (ms : Modules) (i : Nat)
    (d : Definition) (r : TypeRef) (id : Identifier) : Prop where
  /-- The reference is quoted if it is to the definition itself, and only then. -/
  forward_iff : r.forward = true ↔ id = d.id
  /-- A reference to the definition itself is that of a field, and names the definition alone. -/
  own : id = d.id → ¬ m.BaseRefers d r id ∧ r.package = none ∧ r.name = d.name
  /-- Any other reference names a definition that stands before. It is qualified if that is in
  another package, by a package that has a module. -/
  other : id ≠ d.id → ∃ (j : Nat) (d' : Definition), j < i ∧ ds[j]? = some d' ∧ d'.id = id ∧
    d'.name = r.name ∧ (r.package = none ↔ d'.package = d.package) ∧
    (d'.package ≠ d.package → r.package = some d'.package ∧ ms.contains d'.package = true)

/-- Every reference in modules can be read, and they import exactly what they refer to. -/
structure Readable (m : Model) (ds : List Definition) (ms : Modules) : Prop where
  /-- There is a module for each package that has a definition, and for no other. -/
  contains_iff : ∀ p, ms.contains p = true ↔ ∃ d ∈ ds, d.package = p
  /-- A reference stands for some entry. -/
  grounded : ∀ d ∈ ds, ∀ r ∈ d.references, ∃ id, m.Refers d r id
  /-- Whatever entry a reference stands for, it can be read as a reference to that. -/
  sound : ∀ (i : Nat) (d : Definition), ds[i]? = some d → ∀ r id, m.Refers d r id →
    SoundReference m ds ms i d r id
  /-- The source text of a module has a line for each import and then its definitions, in their
  order. It imports those packages by which a reference in it is qualified, and not its own. -/
  imports : ∀ p text, ms.get? p = some text →
    ∃ qs, text = Modules.layout qs ((ds.filter (·.package = p)).map (·.code)) ∧
      qs.Pairwise (· < ·) ∧ p ∉ qs ∧
      ∀ q, q ∈ qs ↔ ∃ d ∈ ds, d.package = p ∧ ∃ r ∈ d.references, r.package = some q

/-- The source texts in the module of a package are those of its definitions. -/
lemma codesOf_map_piece (p : String) (ds : List Definition) :
    Modules.codesOf p (ds.map (·.piece)) = (ds.filter (·.package = p)).map (·.code) := by
  unfold Modules.codesOf Modules.piecesOf
  rw [List.filter_map, List.map_map]
  rfl

/-- What is known of each definition of a resolution. -/
theorem OrdersClosure.definedAs (h : OrdersClosure m roots ds) (hd : d ∈ ds) :
    ∃ e, m.find? d.id = some e ∧ e.DefinedAs m d := by
  rcases h.compiled d hd with ⟨e, he, hcompile⟩
  exact ⟨e, he, Entry.compile_eq_ok hcompile⟩

theorem encoded_of_ordersClosure (h : OrdersClosure m roots ds) :
    Modules.Encoded (ds.map (·.piece)) := by
  intro piece hpiece id hid
  rcases List.mem_map.1 hpiece with ⟨d, hd, rfl⟩
  rcases h.definedAs hd with ⟨e, -, hdefined⟩
  rcases (hdefined.mentions hid).2.2 with ⟨r, hr⟩
  rcases TypeRef.resolve_eq_ok_iff.1 hr with ⟨-, package, -, hpackage, -⟩
  exact ⟨package, hpackage⟩

/-- The definition of an entry has its name, and the package that its identifier encodes. -/
theorem OrdersClosure.name_package (h : OrdersClosure m roots ds) (hd : d ∈ ds) {e : Entry}
    {package : String} (he : m.find? d.id = some e) (hpackage : d.id.package? = some package) :
    d.name = e.name ∧ d.package = package := by
  rcases h.definedAs hd with ⟨e', he', hdefined⟩
  cases he.symm.trans he'
  rw [hdefined.id_eq, hdefined.package?_eq] at hpackage
  exact ⟨hdefined.name_eq, Option.some.inj hpackage⟩

/-- A reference to an entry can be read. It is by the name of the entry's definition and by the
package of that, and only the definition it stands in need not stand before it. -/
theorem Refers.soundReference (hrefers : m.Refers d r id) (horder : OrdersClosure m roots ds)
    {ms : Modules} (hms : ms.ComposedOf (ds.map (·.piece))) {i : Nat} (hi : ds[i]? = some d) :
    SoundReference m ds ms i d r id := by
  have hmem : d ∈ ds := List.mem_of_getElem? hi
  rcases horder.definedAs hmem with ⟨e₀, he₀, hd⟩
  have hpoints : m.PointsTo d id r := hrefers.pointsTo hd he₀
  rcases hpoints.eq_seenFrom with ⟨e, package, he, hpackage, rfl⟩
  refine ⟨decide_eq_true_iff, ?_, ?_⟩
  · intro hself
    subst hself
    rcases horder.name_package hmem he hpackage with ⟨hname, hown⟩
    refine ⟨?_, if_pos hown.symm, hname.symm⟩
    intro hbase
    exact (hbase.pointsTo hd he₀).1 rfl
  · intro hne
    have hdependency : id ∈ d.dependencies := hpoints.mem_dependencies hne
    rcases horder.dependency_before i d hi id hdependency with ⟨j, d', hj, hd', hid⟩
    have hmem' : d' ∈ ds := List.mem_of_getElem? hd'
    -- the entry that is referred to is the one that the earlier definition was made of
    subst hid
    rcases horder.name_package hmem' he hpackage with ⟨hname, hpackage'⟩
    subst hpackage'
    refine ⟨j, d', hj, hd', rfl, hname, ?_, ?_⟩
    · show (if d'.package = d.package then none else some d'.package) = none ↔ _
      by_cases hsame : d'.package = d.package
      · simp [hsame]
      · simp [hsame]
    · intro hother
      have hmodule : ms.contains d'.package = true :=
        (hms.contains_iff _).2 ⟨d'.piece, List.mem_map_of_mem hmem', rfl⟩
      exact ⟨if_neg hother, hmodule⟩

/-- A module has to import a package exactly if a reference in it is qualified by that package. -/
theorem imported_iff (horder : OrdersClosure m roots ds) {p q : String} :
    Modules.Imported p (Modules.piecesOf p (ds.map (·.piece))) q ↔
      ∃ d ∈ ds, d.package = p ∧ ∃ r ∈ d.references, r.package = some q := by
  constructor
  · rintro ⟨hne, piece, hpiece, id, hid, hq⟩
    rcases List.mem_filter.1 hpiece with ⟨hmem, hp⟩
    rcases List.mem_map.1 hmem with ⟨d, hd, rfl⟩
    have hp : d.package = p := of_decide_eq_true hp
    rcases horder.definedAs hd with ⟨e₀, he₀, hdefined⟩
    rcases exists_reference_of_mem_dependencies hdefined he₀ hid with ⟨r, hr, hrefers⟩
    rcases (hrefers.pointsTo hdefined he₀).eq_seenFrom with ⟨e, package, -, hpackage, rfl⟩
    rw [hq] at hpackage
    cases hpackage
    refine ⟨d, hd, hp, _, hr, ?_⟩
    exact if_neg fun hsame => hne (hsame.trans hp)
  · rintro ⟨d, hd, hp, r, hr, hq⟩
    rcases horder.definedAs hd with ⟨e₀, he₀, hdefined⟩
    rcases exists_refers hdefined he₀ hr with ⟨id, hrefers⟩
    have hpoints := hrefers.pointsTo hdefined he₀
    rcases hpoints.eq_seenFrom with ⟨e, package, he, hpackage, rfl⟩
    change (if package = d.package then none else some package) = some q at hq
    split at hq
    · cases hq
    next hother =>
      cases hq
      -- the entry is in another package, so it is not the definition's own
      have hne : id ≠ d.id := by
        intro hself
        subst hself
        exact hother (horder.name_package hd he hpackage).2.symm
      refine ⟨hp ▸ hother, d.piece, ?_, id, hpoints.mem_dependencies hne, hpackage⟩
      exact List.mem_filter.2 ⟨List.mem_map_of_mem hd, decide_eq_true hp⟩

/-- The definitions of a resolution compose into modules in which every reference can be read. -/
theorem resolve_readable (hm : m.IsLoaded) (h : (m.resolve roots).result = .ok ds) :
    ∃ ms, (Modules.compose (ds.map (·.piece))).result = .ok ms ∧ m.Readable ds ms := by
  have horder : OrdersClosure m roots ds := ordersClosure_of_resolve hm.coherent h
  rcases Modules.compose_composedOf (encoded_of_ordersClosure horder) with ⟨ms, hms, hcomposed⟩
  refine ⟨ms, hms, ?_, ?_, ?_, ?_⟩
  · intro p
    rw [hcomposed.contains_iff]
    constructor
    · rintro ⟨piece, hpiece, hp⟩
      rcases List.mem_map.1 hpiece with ⟨d, hd, rfl⟩
      exact ⟨d, hd, hp⟩
    · rintro ⟨d, hd, hp⟩
      exact ⟨d.piece, List.mem_map_of_mem hd, hp⟩
  · intro d hd r hr
    rcases horder.definedAs hd with ⟨e, he, hdefined⟩
    exact exists_refers hdefined he hr
  · intro i d hi r id hrefers
    exact hrefers.soundReference horder hcomposed hi
  · intro p text htext
    rcases hcomposed.isModule p text htext with ⟨qs, heq, hascending, hmem⟩
    rw [codesOf_map_piece] at heq
    refine ⟨qs, heq, hascending, fun hp => ((hmem p).1 hp).1 rfl, ?_⟩
    intro q
    rw [hmem, imported_iff horder]

theorem sample_readable : ∃ ds ms, (sample.resolve ["ID_flight.Node"]).result = .ok ds ∧
    ds.map (·.id) = ["ID_common.Text", "ID_common.Named", "ID_flight.Node"] ∧
    (Modules.compose (ds.map (·.piece))).result = .ok ms ∧ sample.Readable ds ms := by
  rcases sample_resolve_node with ⟨ds, hds, hids⟩
  rcases resolve_readable sample_isLoaded hds with ⟨ms, hms, hreadable⟩
  exact ⟨ds, ms, hds, hids, hms, hreadable⟩

end Model

end UmlTyping
