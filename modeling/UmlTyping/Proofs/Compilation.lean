import Mathlib.Data.List.Forall2
import Mathlib.Data.List.Nodup
import UmlTyping.Definition.Compile
import UmlTyping.Proofs.Outcome

/-!
# What compiling an entry gives

Each step of compiling is inverted once: what it gives if it succeeds, and why it fails if it does
not. For a record the steps are its attributes, taken in turn, and its base.

* `compile_eq_ok`: a compiled definition, field by field;
* `compile_eq_error`: the reasons for which an entry does not compile;
* `RecordAs.mem_dependencies`: a record depends on the entries that its attributes refer to, other
  than itself, and on its base.
-/

namespace UmlTyping

/-! ## References -/

namespace TypeRef

variable {m : Model} {id : Identifier} {owner : String}

/-- The reference to an entry of the package `package` under the name `name`. -/
def seenFrom (owner package name : String) : TypeRef where
  package := if package = owner then none else some package
  name := name

theorem resolve_eq_ok_iff {r : TypeRef} :
    TypeRef.resolve m id owner = .ok r ↔
      ∃ e package, m.find? id = some e ∧ id.package? = some package ∧
        r = seenFrom owner package e.name := by
  unfold TypeRef.resolve
  constructor
  · intro h
    split at h
    · cases h
    next e he =>
      split at h
      · cases h
      next package hpackage =>
        cases h
        exact ⟨e, package, he, hpackage, rfl⟩
  · rintro ⟨e, package, he, hpackage, rfl⟩
    rw [he]
    dsimp only
    rw [hpackage]
    rfl

theorem resolve_eq_error_iff {err : DefinitionError} :
    TypeRef.resolve m id owner = .error err ↔
      m.find? id = none ∧ err = .unresolvedReference id ∨
        m.find? id ≠ none ∧ id.package? = none ∧ err = .model (.invalidIdentifier id) := by
  unfold TypeRef.resolve
  cases he : m.find? id with
  | none => simp [eq_comm]
  | some e =>
    cases hpackage : id.package? with
    | none => simp [eq_comm]
    | some package => simp

end TypeRef

/-! ## Attributes -/

namespace Attribute

variable {m : Model} {a : Attribute} {owner : String}

/-- The values of the attribute are scalars, so nothing has to be defined for it. -/
def IsScalar (m : Model) (a : Attribute) : Prop :=
  a.typeRef = booleanId ∨ m.files primitivePackage a.typeRef = true

theorem resolve_scalar (h : a.IsScalar m) :
    a.resolve m owner =
      .ok (if a.typeRef = booleanId then .boolean else .string, none) := by
  unfold Attribute.resolve
  by_cases hb : a.typeRef = booleanId
  · rw [if_pos hb, if_pos hb]
  · rw [if_neg hb, if_neg hb, if_pos (h.resolve_left hb)]

theorem resolve_entry (h : ¬ a.IsScalar m) :
    a.resolve m owner = Arity.ofBounds a.lower a.upper >>= fun arity =>
      TypeRef.resolve m a.typeRef owner >>= fun r => .ok (arity.typeExpr r, some a.typeRef) := by
  unfold Attribute.resolve
  rw [if_neg fun hb => h (Or.inl hb), if_neg fun hp => h (Or.inr hp)]
  rfl

theorem ref?_typeExpr (arity : Arity) (r : TypeRef) : (arity.typeExpr r).ref? = some r := by
  cases arity <;> rfl

/-- An attribute without dependency refers to no entry, and one with a dependency refers to it. -/
theorem resolve_eq_ok {t : TypeExpr} {dependency : Option Identifier}
    (h : a.resolve m owner = .ok (t, dependency)) :
    a.IsScalar m ∧ dependency = none ∧ t.ref? = none ∨
      ¬ a.IsScalar m ∧ dependency = some a.typeRef ∧
        ∃ r, t.ref? = some r ∧ TypeRef.resolve m a.typeRef owner = .ok r := by
  by_cases hs : a.IsScalar m
  · rw [resolve_scalar hs] at h
    cases h
    refine Or.inl ⟨hs, rfl, ?_⟩
    split <;> rfl
  · rw [resolve_entry hs] at h
    rcases bind_eq_ok_iff.1 h with ⟨arity, -, h⟩
    rcases bind_eq_ok_iff.1 h with ⟨r, hr, h⟩
    cases h
    exact Or.inr ⟨hs, rfl, r, ref?_typeExpr arity r, hr⟩

theorem resolve_eq_error {err : DefinitionError} (h : a.resolve m owner = .error err) :
    ¬ a.IsScalar m ∧
      (err = .unexpectedArity a.lower a.upper ∨
        TypeRef.resolve m a.typeRef owner = .error err) := by
  by_cases hs : a.IsScalar m
  · rw [resolve_scalar hs] at h
    cases h
  refine ⟨hs, ?_⟩
  rw [resolve_entry hs] at h
  -- the bounds are looked at first, so their error hides that of the reference
  rcases bind_eq_error_iff.1 h with harity | ⟨arity, -, h⟩
  · unfold Arity.ofBounds at harity
    split at harity
    · cases harity
    · cases harity
      exact Or.inl rfl
  rcases bind_eq_error_iff.1 h with hr | ⟨r, -, h⟩
  · exact Or.inr hr
  · cases h

end Attribute

/-! ## The fields of a record -/

namespace Fields

variable {m : Model} {id : Identifier} {owner : String} {f g : Fields} {a : Attribute}

/-- The fields and dependencies with what an attribute adds: its type, in which a reference to the
record itself is forward, and the entry that it depends on, unless that is the record. -/
def extend (f : Fields) (id : Identifier) (name : String) (t : TypeExpr)
    (dependency : Option Identifier) : Fields :=
  if dependency = some id then f.addType name (t.mapRef fun r => { r with forward := true })
  else dependency.elim (f.addType name t) (f.addType name t).addDependency

/-- Adding an attribute looks at its type first and at its name last. -/
theorem result_addAttribute :
    (f.addAttribute m id owner a).result = a.resolve m owner >>= fun x =>
      if a.name ∈ f.names then .error (.model (.malformed (.duplicateAttribute id a.name)))
      else .ok (f.extend id a.name x.1 x.2) := by
  unfold addAttribute extend
  rw [Run.result_bind, Run.result_ofExcept]
  refine congrArg _ (funext fun x => ?_)
  rcases x with ⟨t, dependency⟩
  dsimp only
  -- a reference of the record to itself is reported before the name is looked at
  by_cases hself : dependency = some id
  · by_cases hname : a.name ∈ f.names
    · simp [hself, hname]
      rfl
    · simp [hself, hname]
      rfl
  · by_cases hname : a.name ∈ f.names
    · simp [hself, hname]
      rfl
    · simp [hself, hname]

theorem addAttribute_eq_ok_iff :
    (f.addAttribute m id owner a).result = .ok g ↔
      ∃ t dependency, a.resolve m owner = .ok (t, dependency) ∧ a.name ∉ f.names ∧
        g = f.extend id a.name t dependency := by
  rw [result_addAttribute, bind_eq_ok_iff]
  constructor
  · rintro ⟨⟨t, dependency⟩, hresolve, h⟩
    dsimp only at h
    split at h
    · cases h
    next hname =>
      cases h
      exact ⟨t, dependency, hresolve, hname, rfl⟩
  · rintro ⟨t, dependency, hresolve, hname, rfl⟩
    refine ⟨(t, dependency), hresolve, ?_⟩
    rw [if_neg hname]

theorem addAttribute_eq_error {err : DefinitionError}
    (h : (f.addAttribute m id owner a).result = .error err) :
    a.resolve m owner = .error err ∨ err = .model (.malformed (.duplicateAttribute id a.name)) := by
  rw [result_addAttribute, bind_eq_error_iff] at h
  rcases h with h | ⟨⟨t, dependency⟩, -, h⟩
  · exact Or.inl h
  · right
    dsimp only at h
    split at h
    · cases h
      rfl
    · cases h

/-! ### What a step adds -/

/-- The field that an attribute of the record `id` becomes. -/
def fieldOf (id : Identifier) (name : String) (t : TypeExpr) (dependency : Option Identifier) :
    String × TypeExpr :=
  (name, if dependency = some id then t.mapRef fun r => { r with forward := true } else t)

theorem types_extend (f : Fields) (id : Identifier) (name : String) (t : TypeExpr)
    (dependency : Option Identifier) :
    (f.extend id name t dependency).types = f.types ++ [fieldOf id name t dependency] := by
  unfold extend fieldOf
  by_cases hself : dependency = some id
  · rw [if_pos hself, if_pos hself]
    rfl
  · rw [if_neg hself, if_neg hself]
    cases dependency <;> rfl

theorem mem_addOnce {ids : List Identifier} {id b : Identifier} :
    b ∈ addOnce ids id ↔ b ∈ ids ∨ b = id := by
  unfold addOnce
  split
  next hid =>
    constructor
    · exact Or.inl
    · rintro (hb | rfl)
      · exact hb
      · exact hid
  · simp

theorem mem_dependencies_extend {name : String} {t : TypeExpr} {dependency : Option Identifier}
    {b : Identifier} :
    b ∈ (f.extend id name t dependency).dependencies ↔
      b ∈ f.dependencies ∨ b ≠ id ∧ dependency = some b := by
  unfold extend
  by_cases hself : dependency = some id
  · -- a forward reference adds no dependency
    rw [if_pos hself]
    constructor
    · exact Or.inl
    · rintro (hb | ⟨hne, hb⟩)
      · exact hb
      · exact absurd (Option.some.inj (hb.symm.trans hself)) hne
  rw [if_neg hself]
  cases dependency with
  | none => simp [addType]
  | some c =>
    have hc : c ≠ id := fun h => hself (congrArg some h)
    show b ∈ addOnce f.dependencies c ↔ _
    rw [mem_addOnce]
    constructor
    · rintro (hb | rfl)
      · exact Or.inl hb
      · exact Or.inr ⟨hc, rfl⟩
    · rintro (hb | ⟨-, hb⟩)
      · exact Or.inl hb
      · exact Or.inr (Option.some.inj hb).symm

/-! ### All attributes -/

/-- The attribute `a` of the record `id` in the package `owner` becomes the field `field`. -/
def Becomes (m : Model) (id : Identifier) (owner : String) (a : Attribute)
    (field : String × TypeExpr) : Prop :=
  ∃ t dependency, a.resolve m owner = .ok (t, dependency) ∧ field = fieldOf id a.name t dependency

/-- Attributes that are added become fields in their order, and each entry that one of them depends
on is added, unless it is the record itself. -/
theorem addAttributes_eq_ok {attributes : List Attribute}
    (h : (addAttributes m id owner f attributes).result = .ok g) :
    (∃ types, g.types = f.types ++ types ∧ List.Forall₂ (Becomes m id owner) attributes types) ∧
      ∀ b, b ∈ g.dependencies ↔ b ∈ f.dependencies ∨
        b ≠ id ∧ ∃ a ∈ attributes, ∃ t, a.resolve m owner = .ok (t, some b) := by
  induction attributes generalizing f with
  | nil =>
    cases h
    exact ⟨⟨[], by simp, .nil⟩, by simp⟩
  | cons a rest ih =>
    rw [addAttributes] at h
    rcases Run.result_bind_eq_ok_iff.1 h with ⟨f', hf', h⟩
    rcases addAttribute_eq_ok_iff.1 hf' with ⟨t, dependency, hresolve, -, rfl⟩
    rcases ih h with ⟨⟨types, htypes, hall⟩, hdependencies⟩
    -- what `a` adds stands between what is there and what the rest adds
    refine ⟨⟨_ :: types, ?_, .cons ⟨t, dependency, hresolve, rfl⟩ hall⟩, ?_⟩
    · rw [htypes, types_extend, List.append_assoc, List.singleton_append]
    intro b
    rw [hdependencies, mem_dependencies_extend, or_assoc, ← and_or_left]
    refine or_congr_right (and_congr_right fun _ => ?_)
    constructor
    · rintro (rfl | ⟨a', ha', hb⟩)
      · exact ⟨a, List.mem_cons_self, t, hresolve⟩
      · exact ⟨a', List.mem_cons_of_mem a ha', hb⟩
    · rintro ⟨a', ha', t', hb⟩
      rcases List.mem_cons.1 ha' with rfl | ha'
      · rw [hresolve] at hb
        cases hb
        exact Or.inl rfl
      · exact Or.inr ⟨a', ha', t', hb⟩

theorem addAttributes_eq_error {attributes : List Attribute} {err : DefinitionError}
    (h : (addAttributes m id owner f attributes).result = .error err) :
    ∃ a ∈ attributes, a.resolve m owner = .error err ∨
      err = .model (.malformed (.duplicateAttribute id a.name)) := by
  induction attributes generalizing f with
  | nil => cases h
  | cons a rest ih =>
    rw [addAttributes] at h
    rcases Run.result_bind_eq_error_iff.1 h with h | ⟨f', -, h⟩
    · exact ⟨a, List.mem_cons_self, addAttribute_eq_error h⟩
    · rcases ih h with ⟨a', ha', hreason⟩
      exact ⟨a', List.mem_cons_of_mem a ha', hreason⟩

end Fields

/-! ## Entries -/

namespace Entry

variable {m : Model} {e : Entry} {d : Definition} {owner : String} {err : DefinitionError}

/-- What the definition of a record holds. -/
structure RecordAs (m : Model) (e : Entry) (d : Definition) : Prop where
  /-- Every attribute becomes a field. -/
  fields : List.Forall₂ (Fields.Becomes m e.id d.package) e.attributes d.fields
  /-- The base is the reference to the entry that the record specialises. -/
  base : e.resolveBase m d.package = .ok d.base
  /-- The dependencies are the entries that attributes refer to and the base, without the record. -/
  mem_dependencies : ∀ b, b ∈ d.dependencies ↔
    (b ≠ e.id ∧ ∃ a ∈ e.attributes, ∃ t, a.resolve m d.package = .ok (t, some b)) ∨
      e.generalization = some b

/-- What a definition takes from its entry. -/
structure DefinedAs (m : Model) (e : Entry) (d : Definition) : Prop where
  id_eq : d.id = e.id
  name_eq : d.name = e.name
  package?_eq : e.id.package? = some d.package
  kind_eq : Kind.ofTag? e.tag = some d.kind
  /-- Only a record refers to other entries. -/
  plain : d.kind ≠ .record → d.fields = [] ∧ d.dependencies = [] ∧ d.base = none
  record : d.kind = .record → RecordAs m e d

/-! ### The base -/

theorem resolveBase_eq_ok {base : Option TypeRef} (h : e.resolveBase m owner = .ok base) :
    e.generalization = none ∧ base = none ∨
      ∃ general r, e.generalization = some general ∧ base = some r ∧ general ≠ e.id ∧
        TypeRef.resolve m general owner = .ok r := by
  unfold resolveBase at h
  split at h
  next hnone =>
    cases h
    exact Or.inl ⟨hnone, rfl⟩
  next general hgeneral =>
    right
    split at h
    · cases h
    next hne =>
      rcases map_eq_ok_iff.1 h with ⟨r, hr, rfl⟩
      exact ⟨general, r, hgeneral, rfl, hne, hr⟩

/-- The base of a record is refused if it is the record itself, and else if it cannot be referred
to. -/
theorem resolveBase_eq_error (h : e.resolveBase m owner = .error err) :
    ∃ general, e.generalization = some general ∧
      (general = e.id ∧ err = .cyclicDependency [e.id, e.id] ∨
        TypeRef.resolve m general owner = .error err) := by
  unfold resolveBase at h
  split at h
  · cases h
  next general hgeneral =>
    refine ⟨general, hgeneral, ?_⟩
    split at h
    next hself =>
      cases h
      exact Or.inl ⟨hself, rfl⟩
    · exact Or.inr (map_eq_error_iff.1 h)

theorem RecordAs.exists_base (h : RecordAs m e d) {general : Identifier}
    (hgeneral : e.generalization = some general) :
    ∃ r, d.base = some r ∧ general ≠ e.id ∧ TypeRef.resolve m general d.package = .ok r := by
  rcases resolveBase_eq_ok h.base with ⟨hnone, -⟩ | ⟨general', r, hgeneral', hbase, hne, hr⟩
  · rw [hnone] at hgeneral
    cases hgeneral
  · cases hgeneral.symm.trans hgeneral'
    exact ⟨r, hbase, hne, hr⟩

theorem RecordAs.exists_generalization (h : RecordAs m e d) {r : TypeRef} (hbase : d.base = some r) :
    ∃ general, e.generalization = some general ∧ general ≠ e.id ∧
      TypeRef.resolve m general d.package = .ok r := by
  rcases resolveBase_eq_ok h.base with ⟨-, hnone⟩ | ⟨general, r', hgeneral, hbase', hne, hr⟩
  · rw [hnone] at hbase
    cases hbase
  · cases hbase.symm.trans hbase'
    exact ⟨general, hgeneral, hne, hr⟩

/-! ### Records -/

theorem compileRecord_eq_ok (h : (e.compileRecord m owner).result = .ok d) :
    d.id = e.id ∧ d.name = e.name ∧ d.package = owner ∧ d.kind = .record ∧ RecordAs m e d := by
  rcases Run.result_bind_eq_ok_iff.1 h with ⟨f, hf, h⟩
  rcases Run.result_bind_eq_ok_iff.1 h with ⟨base, hbase, h⟩
  rcases Fields.addAttributes_eq_ok hf with ⟨⟨types, htypes, hall⟩, hdependencies⟩
  cases h
  refine ⟨rfl, rfl, rfl, rfl, ?_, hbase, ?_⟩
  · rw [show f.types = types by simpa using htypes]
    exact hall
  intro b
  have hfields : b ∈ f.dependencies ↔
      b ≠ e.id ∧ ∃ a ∈ e.attributes, ∃ t, a.resolve m owner = .ok (t, some b) := by
    simpa using hdependencies b
  dsimp only
  rw [← hfields]
  -- the base comes last, and is a dependency once if attributes refer to it as well
  cases e.generalization with
  | none => simp
  | some general =>
    show b ∈ addOnce f.dependencies general ↔ _
    rw [Fields.mem_addOnce, Option.some.injEq, eq_comm (a := b)]

theorem compileRecord_eq_error (h : (e.compileRecord m owner).result = .error err) :
    (∃ a ∈ e.attributes, a.resolve m owner = .error err ∨
      err = .model (.malformed (.duplicateAttribute e.id a.name))) ∨
    e.resolveBase m owner = .error err := by
  rcases Run.result_bind_eq_error_iff.1 h with h | ⟨f, -, h⟩
  · exact Or.inl (Fields.addAttributes_eq_error h)
  rcases Run.result_bind_eq_error_iff.1 h with h | ⟨base, -, h⟩
  · exact Or.inr h
  · cases h

/-! ### All kinds -/

/-- What comes of an entry of a known kind and package. -/
def outcomeAs (m : Model) (e : Entry) (owner : String) : Kind → Except DefinitionError Definition
  | .enumeration => e.compileEnumeration owner
  | .primitive => .ok (e.compilePrimitive owner)
  | .record => (e.compileRecord m owner).result

/-- Compiling asks for a kind first, then for a package, and goes by the kind from there. -/
theorem result_compile (m : Model) (e : Entry) :
    Kind.ofTag? e.tag = none ∧ (e.compile m).result = .error (.unsupportedKind e.tag) ∨
    (∃ kind, Kind.ofTag? e.tag = some kind ∧ e.id.package? = none ∧
      (e.compile m).result = .error (.model (.invalidIdentifier e.id))) ∨
    ∃ kind owner, Kind.ofTag? e.tag = some kind ∧ e.id.package? = some owner ∧
      (e.compile m).result = outcomeAs m e owner kind := by
  unfold compile
  cases hkind : Kind.ofTag? e.tag with
  | none => exact Or.inl ⟨rfl, rfl⟩
  | some kind =>
    cases howner : e.id.package? with
    | none => exact Or.inr (Or.inl ⟨kind, rfl, rfl, rfl⟩)
    | some owner =>
      refine Or.inr (Or.inr ⟨kind, owner, rfl, rfl, ?_⟩)
      rw [Run.result_report_bind]
      cases kind <;> rfl

theorem compile_eq_ok (h : (e.compile m).result = .ok d) : DefinedAs m e d := by
  rcases result_compile m e with ⟨-, heq⟩ | ⟨-, -, -, heq⟩ | ⟨kind, owner, hkind, howner, heq⟩
  · rw [heq] at h
    cases h
  · rw [heq] at h
    cases h
  rw [heq] at h
  cases kind with
  | enumeration =>
    unfold outcomeAs compileEnumeration at h
    dsimp only at h
    split at h
    · cases h
    · cases h
      exact ⟨rfl, rfl, howner, hkind, fun _ => ⟨rfl, rfl, rfl⟩, fun hrecord => by cases hrecord⟩
  | primitive =>
    cases h
    exact ⟨rfl, rfl, howner, hkind, fun _ => ⟨rfl, rfl, rfl⟩, fun hrecord => by cases hrecord⟩
  | record =>
    rcases compileRecord_eq_ok h with ⟨hid, hname, hpackage, hrecord, has⟩
    exact ⟨hid, hname, hpackage ▸ howner, hrecord ▸ hkind, fun hne => absurd hrecord hne,
      fun _ => has⟩

/-- An entry that does not compile is of no kind, has a malformed part, or is a record of which an
attribute or the base cannot be resolved. -/
theorem compile_eq_error (h : (e.compile m).result = .error err) :
    err = .unsupportedKind e.tag ∨ (∃ fault, err = .model fault) ∨
      Kind.ofTag? e.tag = some .record ∧ ∃ owner,
        (∃ a ∈ e.attributes, a.resolve m owner = .error err) ∨
          e.resolveBase m owner = .error err := by
  rcases result_compile m e with ⟨-, heq⟩ | ⟨-, -, -, heq⟩ | ⟨kind, owner, hkind, -, heq⟩
  · rw [heq] at h
    cases h
    exact Or.inl rfl
  · rw [heq] at h
    cases h
    exact Or.inr (Or.inl ⟨_, rfl⟩)
  rw [heq] at h
  cases kind with
  | enumeration =>
    unfold outcomeAs compileEnumeration at h
    dsimp only at h
    split at h
    · cases h
      exact Or.inr (Or.inl ⟨_, rfl⟩)
    · cases h
  | primitive => cases h
  | record =>
    rcases compileRecord_eq_error h with ⟨a, ha, hresolve | rfl⟩ | hbase
    · exact Or.inr (Or.inr ⟨hkind, owner, Or.inl ⟨a, ha, hresolve⟩⟩)
    · exact Or.inr (Or.inl ⟨_, rfl⟩)
    · exact Or.inr (Or.inr ⟨hkind, owner, Or.inr hbase⟩)

/-- What an entry refers to, as written: the types of its attributes and the record that it
specialises. -/
def Mentions (e : Entry) (id : Identifier) : Prop :=
  id ∈ e.attributes.map (·.typeRef) ∨ e.generalization = some id

theorem compile_eq_unresolvedReference {id : Identifier}
    (h : (e.compile m).result = .error (.unresolvedReference id)) :
    m.find? id = none ∧ e.Mentions id := by
  -- of all that can go wrong only the look-up of a reference ends in this error
  have href : ∀ {id' owner}, TypeRef.resolve m id' owner = .error (.unresolvedReference id) →
      m.find? id = none ∧ id' = id := by
    intro id' owner hr
    rcases TypeRef.resolve_eq_error_iff.1 hr with ⟨hfind, heq⟩ | ⟨-, -, heq⟩
    · cases heq
      exact ⟨hfind, rfl⟩
    · cases heq
  rcases compile_eq_error h with heq | ⟨fault, heq⟩ | ⟨-, owner, ⟨a, ha, hresolve⟩ | hbase⟩
  · cases heq
  · cases heq
  · rcases (Attribute.resolve_eq_error hresolve).2 with heq | hr
    · cases heq
    · rcases href hr with ⟨hfind, rfl⟩
      exact ⟨hfind, Or.inl (List.mem_map_of_mem ha)⟩
  · rcases resolveBase_eq_error hbase with ⟨general, hgeneral, ⟨-, heq⟩ | hr⟩
    · cases heq
    · rcases href hr with ⟨hfind, rfl⟩
      exact ⟨hfind, Or.inr hgeneral⟩

/-- Compiling finds one kind of cycle itself, that of a record which is its own base. -/
theorem compile_eq_cyclicDependency {path : List Identifier}
    (h : (e.compile m).result = .error (.cyclicDependency path)) :
    path = [e.id, e.id] ∧ Kind.ofTag? e.tag = some .record ∧ e.generalization = some e.id := by
  -- references give no such error, so it is that of the base
  have href : ∀ {id' owner}, TypeRef.resolve m id' owner ≠ .error (.cyclicDependency path) := by
    intro id' owner hr
    rcases TypeRef.resolve_eq_error_iff.1 hr with ⟨-, heq⟩ | ⟨-, -, heq⟩
    · cases heq
    · cases heq
  rcases compile_eq_error h with heq | ⟨fault, heq⟩ | ⟨hkind, owner, ⟨a, -, hresolve⟩ | hbase⟩
  · cases heq
  · cases heq
  · rcases (Attribute.resolve_eq_error hresolve).2 with heq | hr
    · cases heq
    · exact absurd hr href
  · rcases resolveBase_eq_error hbase with ⟨general, hgeneral, ⟨hself, heq⟩ | hr⟩
    · cases heq
      exact ⟨rfl, hkind, hself ▸ hgeneral⟩
    · exact absurd hr href

/-- A dependency is an entry that the definition's own entry mentions and that is found. -/
theorem DefinedAs.mentions (hd : DefinedAs m e d) {b : Identifier} (hb : b ∈ d.dependencies) :
    e.Mentions b ∧ b ≠ e.id ∧ ∃ r, TypeRef.resolve m b d.package = .ok r := by
  have hkind : d.kind = .record := by
    by_contra hne
    rw [(hd.plain hne).2.1] at hb
    cases hb
  have hrecord := hd.record hkind
  rcases (hrecord.mem_dependencies b).1 hb with ⟨hne, a, ha, t, hresolve⟩ | hgeneral
  · -- an attribute with a dependency depends on what it refers to
    rcases Attribute.resolve_eq_ok hresolve with ⟨-, hnone, -⟩ | ⟨-, hsome, r, -, hr⟩
    · cases hnone
    · cases hsome
      exact ⟨Or.inl (List.mem_map_of_mem ha), hne, r, hr⟩
  · rcases hrecord.exists_base hgeneral with ⟨r, -, hne, hr⟩
    exact ⟨Or.inr hgeneral, hne, r, hr⟩

end Entry

end UmlTyping
