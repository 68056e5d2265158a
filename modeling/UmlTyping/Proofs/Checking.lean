import UmlTyping.Proofs.Compilation
import UmlTyping.Proofs.Faults
import UmlTyping.Proofs.Ownership

/-!
# What is checked of an entry

Compiling an entry decides many things at once: its kind, its package, the type of each attribute,
what the record depends on, whether two attributes share a name, and the base. Here these decisions
are taken apart.

* `faults_eq_nil_iff`: the conditions for an entry to compile, each on its own (`Compiles`);
* `failsFirst_compile`: the error of one that does not compile is the first of its `faults`, in the
  order of kind, package, literals, attributes and base;
* `recordOf_of_compile`: the fields of a record in their order with their types, and its
  dependencies as the references of its attributes and its base, each where it first occurs.
-/

namespace UmlTyping

/-! ## References and attributes -/

/-- A reference fails only for want of an entry, for an entry that is found has a package. -/
theorem TypeRef.failsFirst_resolve (m : Model) (id : Identifier) (owner : String) :
    FailsFirst (TypeRef.resolve m id owner)
      (if m.find? id = none then [.unresolvedReference id] else []) := by
  cases hfind : m.find? id with
  | none =>
    have heq : TypeRef.resolve m id owner = .error (.unresolvedReference id) :=
      resolve_eq_error_iff.2 (Or.inl ⟨hfind, rfl⟩)
    rw [heq, if_pos rfl]
    exact failsFirst_error _ []
  | some target =>
    obtain ⟨package, hpackage⟩ := Model.find?_package? hfind
    have heq : TypeRef.resolve m id owner = .ok (seenFrom owner package target.name) :=
      resolve_eq_ok_iff.2 ⟨target, package, hfind, hpackage, rfl⟩
    rw [heq, if_neg (by simp)]
    exact failsFirst_ok _

namespace Arity

/-- The bounds that express an arity. -/
def bounds : List (String × String) := [("1", "1"), ("0", "1"), ("0", "*"), ("1", "*")]

theorem ofBounds_eq_ok_iff {lower upper : String} {arity : Arity} :
    ofBounds lower upper = .ok arity ↔ ofBounds? lower upper = some arity := by
  unfold ofBounds
  cases ofBounds? lower upper with
  | none => simp
  | some arity' => simp

theorem ofBounds?_eq_none_iff {lower upper : String} :
    ofBounds? lower upper = none ↔ (lower, upper) ∉ bounds := by
  unfold ofBounds? bounds
  by_cases hone : upper = "1"
  · by_cases hlower : lower = "1" <;> by_cases hlower' : lower = "0" <;> simp [hone, hlower, hlower']
  · by_cases hmany : upper = "*"
    · by_cases hlower : lower = "0" <;> by_cases hlower' : lower = "1" <;> simp [hmany, hlower, hlower']
    · simp [hone, hmany]

theorem failsFirst_ofBounds (lower upper : String) :
    FailsFirst (ofBounds lower upper)
      (if (lower, upper) ∈ bounds then [] else [.unexpectedArity lower upper]) := by
  unfold ofBounds
  cases harity : ofBounds? lower upper with
  | none =>
    rw [if_neg (ofBounds?_eq_none_iff.1 harity)]
    exact failsFirst_error _ []
  | some arity =>
    have hbounds : (lower, upper) ∈ bounds := by
      by_contra hnot
      rw [ofBounds?_eq_none_iff.2 hnot] at harity
      cases harity
    rw [if_pos hbounds]
    exact failsFirst_ok arity

/-- Only an upper bound of many lets a field hold a list. -/
theorem typeExpr_of_ofBounds? {lower upper : String} {arity : Arity}
    (h : ofBounds? lower upper = some arity) (r : TypeRef) :
    upper = "1" ∧ arity.typeExpr r = .single r ∨ upper = "*" ∧ arity.typeExpr r = .oneOrMany r := by
  unfold ofBounds? at h
  split at h
  next hone =>
    refine Or.inl ⟨hone, ?_⟩
    split at h
    · cases h
      rfl
    · split at h
      · cases h
        rfl
      · cases h
  · split at h
    next hmany =>
      refine Or.inr ⟨hmany, ?_⟩
      split at h
      · cases h
        rfl
      · cases h
    · cases h

end Arity

namespace Attribute

variable {m : Model} {a : Attribute} {id : Identifier} {owner : String}

instance (m : Model) (a : Attribute) : Decidable (a.IsScalar m) :=
  inferInstanceAs (Decidable (_ ∨ _))

/-- The type of the attribute can be told: it is a scalar, of which the bounds do not matter, or its
bounds express an arity and there is an entry to refer to. -/
def Resolves (m : Model) (a : Attribute) : Prop :=
  a.IsScalar m ∨ (a.lower, a.upper) ∈ Arity.bounds ∧ ∃ target, m.find? a.typeRef = some target

/-- What is wrong with the type of an attribute. -/
def typeFaults (m : Model) (a : Attribute) : List DefinitionError :=
  if a.IsScalar m then []
  else
    (if (a.lower, a.upper) ∈ Arity.bounds then [] else [.unexpectedArity a.lower a.upper]) ++
      if m.find? a.typeRef = none then [.unresolvedReference a.typeRef] else []

/-- What is wrong with an attribute of the record `id` that stands behind others. -/
def faults (m : Model) (id : Identifier) (earlier : List Attribute) (a : Attribute) :
    List DefinitionError :=
  a.typeFaults m ++
    if a.name ∈ earlier.map (·.name) then [.model (.malformed (.duplicateAttribute id a.name))]
    else []

/-- The field of an attribute of the record `id` in the package `owner` has a type. -/
inductive HasType (m : Model) (id : Identifier) (owner : String) (a : Attribute) : TypeExpr → Prop
  | boolean : a.typeRef = booleanId → HasType m id owner a .boolean
  | string : a.typeRef ≠ booleanId → m.files primitivePackage a.typeRef = true →
      HasType m id owner a .string
  | single {target : Entry} {package : String} : ¬ a.IsScalar m → a.upper = "1" →
      m.find? a.typeRef = some target → a.typeRef.package? = some package →
      HasType m id owner a (.single
        { TypeRef.seenFrom owner package target.name with forward := a.typeRef = id })
  | oneOrMany {target : Entry} {package : String} : ¬ a.IsScalar m → a.upper = "*" →
      m.find? a.typeRef = some target → a.typeRef.package? = some package →
      HasType m id owner a (.oneOrMany
        { TypeRef.seenFrom owner package target.name with forward := a.typeRef = id })

theorem failsFirst_resolve (m : Model) (a : Attribute) (owner : String) :
    FailsFirst (a.resolve m owner) (a.typeFaults m) := by
  unfold typeFaults
  by_cases hs : a.IsScalar m
  · rw [if_pos hs, resolve_scalar hs]
    exact failsFirst_ok _
  · rw [if_neg hs, resolve_entry hs]
    refine (Arity.failsFirst_ofBounds a.lower a.upper).bind fun arity _ => ?_
    rw [← List.append_nil (if m.find? a.typeRef = none then _ else [])]
    exact (TypeRef.failsFirst_resolve m a.typeRef owner).bind fun r _ => failsFirst_ok _

theorem typeFaults_eq_nil_iff : a.typeFaults m = [] ↔ a.Resolves m := by
  unfold typeFaults Resolves
  by_cases hs : a.IsScalar m
  · simp [hs]
  · by_cases hbounds : (a.lower, a.upper) ∈ Arity.bounds
    · cases m.find? a.typeRef <;> simp [hs, hbounds]
    · simp [hs, hbounds]

theorem faults_eq_nil_iff {earlier : List Attribute} :
    a.faults m id earlier = [] ↔ a.Resolves m ∧ a.name ∉ earlier.map (·.name) := by
  unfold faults
  rw [List.append_eq_nil_iff, typeFaults_eq_nil_iff]
  refine and_congr_right fun _ => ?_
  split
  next hname => simp [hname]
  next hname => simp [hname]

/-- The field that an attribute becomes has the type that its bounds and its reference call for. -/
theorem hasType_of_becomes {field : String × TypeExpr} (h : Fields.Becomes m id owner a field) :
    field.1 = a.name ∧ a.HasType m id owner field.2 := by
  obtain ⟨t, dependency, hresolve, rfl⟩ := h
  refine ⟨rfl, ?_⟩
  unfold Fields.fieldOf
  by_cases hs : a.IsScalar m
  · rw [resolve_scalar hs] at hresolve
    cases hresolve
    by_cases hb : a.typeRef = booleanId
    · simpa [hb] using HasType.boolean hb
    · simpa [hb] using HasType.string hb (hs.resolve_left hb)
  · rw [resolve_entry hs] at hresolve
    obtain ⟨arity, harity, hresolve⟩ := bind_eq_ok_iff.1 hresolve
    obtain ⟨r, hr, hresolve⟩ := bind_eq_ok_iff.1 hresolve
    obtain ⟨target, package, hfind, hpackage, rfl⟩ := TypeRef.resolve_eq_ok_iff.1 hr
    cases hresolve
    -- a reference is forward exactly if it is to the record itself
    have hforward : ∀ r : TypeRef, r.forward = false →
        (if some a.typeRef = some id then (arity.typeExpr r).mapRef fun r => { r with forward := true }
          else arity.typeExpr r) =
        (arity.typeExpr r).mapRef fun r => { r with forward := a.typeRef = id } := by
      rintro ⟨package, name, forward⟩ rfl
      by_cases hself : a.typeRef = id
      · simp [hself]
      · cases arity <;> simp [hself, Arity.typeExpr, TypeExpr.mapRef]
    rw [hforward _ rfl]
    rcases Arity.typeExpr_of_ofBounds? (Arity.ofBounds_eq_ok_iff.1 harity)
        (TypeRef.seenFrom owner package target.name) with ⟨hone, htype⟩ | ⟨hmany, htype⟩
    · rw [htype]
      exact .single hs hone hfind hpackage
    · rw [htype]
      exact .oneOrMany hs hmany hfind hpackage

end Attribute

/-! ## The fields of a record -/

namespace Fields

variable {m : Model} {id : Identifier} {owner : String} {f g : Fields} {a : Attribute}
  {attributes : List Attribute}

theorem result_addAttributes (m : Model) (id : Identifier) (owner : String) (f : Fields)
    (attributes : List Attribute) :
    (addAttributes m id owner f attributes).result =
      attributes.foldlM (fun f a => (f.addAttribute m id owner a).result) f := by
  induction attributes generalizing f with
  | nil => rfl
  | cons a rest ih =>
    rw [addAttributes, Run.result_bind, List.foldlM_cons]
    exact congrArg _ (funext ih)

theorem names_extend (f : Fields) (id : Identifier) (name : String) (t : TypeExpr)
    (dependency : Option Identifier) :
    (f.extend id name t dependency).names = f.names ++ [name] := by
  unfold names
  rw [types_extend, List.map_append]
  rfl

theorem failsFirst_addAttribute {earlier : List Attribute}
    (hnames : f.names = earlier.map (·.name)) :
    FailsFirst (f.addAttribute m id owner a).result (a.faults m id earlier) := by
  rw [result_addAttribute, hnames]
  refine (Attribute.failsFirst_resolve m a owner).bind fun x _ => ?_
  split
  · exact failsFirst_error _ []
  · exact failsFirst_ok _

/-- Attributes are checked in their order, and each one's type before its name. -/
theorem failsFirst_addAttributes (m : Model) (id : Identifier) (owner : String)
    (attributes : List Attribute) :
    FailsFirst (addAttributes m id owner {} attributes).result
      (inTurn (Attribute.faults m id) [] attributes) := by
  rw [result_addAttributes]
  refine failsFirst_foldlM (fun f earlier => f.names = earlier.map (·.name)) ?_ ?_ rfl attributes
  · intro f earlier a hnames
    exact failsFirst_addAttribute hnames
  · intro f earlier a g hnames hg
    obtain ⟨t, dependency, -, -, rfl⟩ := addAttribute_eq_ok_iff.1 hg
    rw [names_extend, hnames, List.map_append, List.map_singleton]

theorem inTurn_faults_eq_nil_iff : inTurn (Attribute.faults m id) [] attributes = [] ↔
    (∀ a ∈ attributes, a.Resolves m) ∧ (attributes.map (·.name)).Nodup :=
  inTurn_eq_nil_iff_nodup fun _ _ => Attribute.faults_eq_nil_iff

/-! ### Dependencies in their order -/

/-- The entries that attributes of the record `id` refer to, other than the record, in the order of
the attributes and as often as they are referred to. -/
def referred (m : Model) (id : Identifier) (attributes : List Attribute) : List Identifier :=
  ((attributes.filter (¬ ·.IsScalar m)).map (·.typeRef)).filter (· ≠ id)

/-- To add an identifier once is to keep first occurrences. -/
theorem addOnce_eraseDups (ids : List Identifier) (id : Identifier) :
    addOnce ids.eraseDups id = (ids ++ [id]).eraseDups := by
  unfold addOnce
  rw [List.eraseDups_append]
  by_cases hid : id ∈ ids
  · simp [hid, List.removeAll]
  · simp [hid, List.removeAll, List.eraseDups_cons]

theorem dependencies_extend {ids : List Identifier} {t : TypeExpr} {dependency : Option Identifier}
    (hf : f.dependencies = ids.eraseDups) (h : a.resolve m owner = .ok (t, dependency)) :
    (f.extend id a.name t dependency).dependencies = (ids ++ referred m id [a]).eraseDups := by
  unfold extend referred
  rcases Attribute.resolve_eq_ok h with ⟨hs, rfl, -⟩ | ⟨hs, rfl, -⟩
  · simpa [hs, addType] using hf
  · by_cases hself : a.typeRef = id
    · simpa [hs, hself, addType] using hf
    · simp [hs, hself, addType, addDependency, hf, addOnce_eraseDups]

theorem dependencies_addAttributes {ids : List Identifier} (hf : f.dependencies = ids.eraseDups)
    (h : (addAttributes m id owner f attributes).result = .ok g) :
    g.dependencies = (ids ++ referred m id attributes).eraseDups := by
  induction attributes generalizing f ids with
  | nil =>
    cases h
    simpa [referred] using hf
  | cons a rest ih =>
    rw [addAttributes] at h
    obtain ⟨f', hf', h⟩ := Run.result_bind_eq_ok_iff.1 h
    obtain ⟨t, dependency, hresolve, -, rfl⟩ := addAttribute_eq_ok_iff.1 hf'
    have hcons : referred m id (a :: rest) = referred m id [a] ++ referred m id rest := by
      unfold referred
      rw [← List.filter_append, ← List.map_append, ← List.filter_append, List.singleton_append]
    rw [ih (dependencies_extend hf hresolve) h, hcons, List.append_assoc]

end Fields

/-! ## Entries -/

namespace Entry

variable {m : Model} {e : Entry} {d : Definition} {owner : String}

/-- All that an entry needs to compile. -/
structure Compiles (m : Model) (e : Entry) : Prop where
  /-- The tag is one of those that are known. -/
  kind : ∃ kind : Kind, e.tag = kind.tag
  /-- The identifier encodes a package. -/
  package : ∃ package, e.id.package? = some package
  /-- There is something to choose from. -/
  literals : e.tag = Kind.enumeration.tag → e.literals ≠ []
  attributes : e.tag = Kind.record.tag → ∀ a ∈ e.attributes, a.Resolves m
  /-- No two attributes share their name. -/
  names : e.tag = Kind.record.tag → (e.attributes.map (·.name)).Nodup
  /-- The base is another entry, and there is one. -/
  base : e.tag = Kind.record.tag → ∀ general, e.generalization = some general →
    general ≠ e.id ∧ ∃ target, m.find? general = some target

/-- What is wrong with the base of a record. -/
def baseFaults (m : Model) (e : Entry) : List DefinitionError :=
  match e.generalization with
  | none => []
  | some general =>
    if general = e.id then [.cyclicDependency [e.id, e.id]]
    else if m.find? general = none then [.unresolvedReference general] else []

/-- What is wrong with the parts of an entry that its kind makes use of. -/
def partFaults (m : Model) (e : Entry) : Kind → List DefinitionError
  | .enumeration => if e.literals = [] then [.model (.missingField .literal)] else []
  | .primitive => []
  | .record => inTurn (Attribute.faults m e.id) [] e.attributes ++ e.baseFaults m

/-- What is wrong with an entry, in the order in which it is looked at: its kind, its package, its
literals, its attributes one by one, and its base. -/
def faults (m : Model) (e : Entry) : List DefinitionError :=
  match Kind.ofTag? e.tag with
  | none => [.unsupportedKind e.tag]
  | some kind =>
    (if e.id.package? = none then [.model (.invalidIdentifier e.id)] else []) ++ e.partFaults m kind

/-- What the definition of a record holds: its fields and dependencies in their order. -/
structure RecordOf (m : Model) (e : Entry) (d : Definition) : Prop where
  /-- Every attribute becomes a field of its name and its type. -/
  fields : List.Forall₂ (fun a field => field.1 = a.name ∧ a.HasType m e.id d.package field.2)
    e.attributes d.fields
  /-- The dependencies are what the attributes refer to and then the base, each once. -/
  dependencies : d.dependencies =
    (Fields.referred m e.id e.attributes ++ e.generalization.toList).eraseDups
  not_mem_dependencies : e.id ∉ d.dependencies
  found : ∀ b ∈ d.dependencies, ∃ target, m.find? b = some target

/-! ### Faults -/

theorem failsFirst_resolveBase (m : Model) (e : Entry) (owner : String) :
    FailsFirst (e.resolveBase m owner) (e.baseFaults m) := by
  unfold resolveBase baseFaults
  cases e.generalization with
  | none => exact failsFirst_ok none
  | some general =>
    dsimp only
    split
    · exact failsFirst_error _ []
    · exact (TypeRef.failsFirst_resolve m general owner).map some

theorem failsFirst_compileRecord (m : Model) (e : Entry) (owner : String) :
    FailsFirst (e.compileRecord m owner).result (e.partFaults m .record) := by
  unfold compileRecord partFaults
  rw [Run.result_bind]
  refine (Fields.failsFirst_addAttributes m e.id owner e.attributes).bind fun f _ => ?_
  rw [Run.result_bind, Run.result_ofExcept, ← List.append_nil (e.baseFaults m)]
  exact (failsFirst_resolveBase m e owner).bind fun base _ => failsFirst_ok _

theorem failsFirst_outcomeAs (m : Model) (e : Entry) (owner : String) (kind : Kind) :
    FailsFirst (outcomeAs m e owner kind) (e.partFaults m kind) := by
  cases kind with
  | enumeration =>
    unfold outcomeAs compileEnumeration partFaults
    dsimp only
    split
    · exact failsFirst_error _ []
    · exact failsFirst_ok _
  | primitive => exact failsFirst_ok _
  | record => exact failsFirst_compileRecord m e owner

/-- An entry that does not compile fails with the first of its faults. -/
theorem failsFirst_compile (m : Model) (e : Entry) :
    FailsFirst (e.compile m).result (e.faults m) := by
  unfold faults
  rcases result_compile m e with ⟨hkind, heq⟩ | ⟨kind, hkind, hpackage, heq⟩ |
    ⟨kind, owner, hkind, hpackage, heq⟩
  · rw [heq, hkind]
    exact failsFirst_error _ []
  · rw [heq, hkind]
    dsimp only
    rw [if_pos hpackage]
    exact failsFirst_error _ _
  · rw [heq, hkind, hpackage]
    exact failsFirst_outcomeAs m e owner kind

theorem baseFaults_eq_nil_iff : e.baseFaults m = [] ↔
    ∀ general, e.generalization = some general →
      general ≠ e.id ∧ ∃ target, m.find? general = some target := by
  unfold baseFaults
  cases e.generalization with
  | none => simp
  | some general =>
    by_cases hself : general = e.id
    · simp [hself]
    · cases hfind : m.find? general with
      | none => simp [hself, hfind]
      | some target => simp [hself, hfind]

theorem partFaults_eq_nil_iff {kind : Kind} : e.partFaults m kind = [] ↔
    (kind = .enumeration → e.literals ≠ []) ∧
      (kind = .record → (∀ a ∈ e.attributes, a.Resolves m) ∧ (e.attributes.map (·.name)).Nodup ∧
        ∀ general, e.generalization = some general →
          general ≠ e.id ∧ ∃ target, m.find? general = some target) := by
  cases kind with
  | enumeration => simp [partFaults]
  | primitive => simp [partFaults]
  | record =>
    unfold partFaults
    rw [List.append_eq_nil_iff, Fields.inTurn_faults_eq_nil_iff, baseFaults_eq_nil_iff, and_assoc]
    simp

theorem faults_eq_nil_iff : e.faults m = [] ↔ e.Compiles m := by
  unfold faults
  cases hkind : Kind.ofTag? e.tag with
  | none =>
    constructor
    · intro h
      cases h
    · rintro ⟨⟨kind, htag⟩, -⟩
      rw [Kind.ofTag?_eq_some_iff.2 htag] at hkind
      cases hkind
  | some kind =>
    -- the tag is that of one kind, so what is asked of the others does not matter
    have hsame : ∀ {kind' : Kind}, e.tag = kind'.tag ↔ kind = kind' := by
      intro kind'
      rw [← Kind.ofTag?_eq_some_iff, hkind, Option.some.injEq]
    dsimp only
    rw [List.append_eq_nil_iff, partFaults_eq_nil_iff]
    constructor
    · rintro ⟨hpackage, hliterals, hrecord⟩
      refine ⟨⟨kind, hsame.2 rfl⟩, ?_, fun h => hliterals (hsame.1 h), fun h => (hrecord (hsame.1 h)).1,
        fun h => (hrecord (hsame.1 h)).2.1, fun h => (hrecord (hsame.1 h)).2.2⟩
      rw [← Option.ne_none_iff_exists']
      rintro hnone
      simp [hnone] at hpackage
    · intro h
      obtain ⟨package, hpackage⟩ := h.package
      refine ⟨by simp [hpackage], fun hk => h.literals (hsame.2 hk), fun hk => ?_⟩
      exact ⟨h.attributes (hsame.2 hk), h.names (hsame.2 hk), h.base (hsame.2 hk)⟩

/-! ### Definitions -/

theorem compileRecord_dependencies (h : (e.compileRecord m owner).result = .ok d) :
    d.dependencies = (Fields.referred m e.id e.attributes ++ e.generalization.toList).eraseDups := by
  obtain ⟨f, hf, h⟩ := Run.result_bind_eq_ok_iff.1 h
  obtain ⟨base, hbase, h⟩ := Run.result_bind_eq_ok_iff.1 h
  have hreferred : f.dependencies = ([] ++ Fields.referred m e.id e.attributes).eraseDups :=
    Fields.dependencies_addAttributes rfl hf
  rw [List.nil_append] at hreferred
  cases h
  dsimp only
  cases e.generalization with
  | none =>
    rw [Option.toList_none, List.append_nil]
    exact hreferred
  | some general =>
    rw [Option.toList_some, ← Fields.addOnce_eraseDups, ← hreferred]
    rfl

/-- The definition of a record comes of compiling a record. -/
theorem compileRecord_of_compile (h : (e.compile m).result = .ok d) (hrecord : d.kind = .record) :
    ∃ owner, (e.compileRecord m owner).result = .ok d := by
  have hkind : Kind.ofTag? e.tag = some .record := hrecord ▸ (compile_eq_ok h).kind_eq
  rcases result_compile m e with ⟨-, heq⟩ | ⟨-, -, -, heq⟩ | ⟨kind, owner, hkind', -, heq⟩
  · rw [heq] at h
    cases h
  · rw [heq] at h
    cases h
  · cases hkind.symm.trans hkind'
    exact ⟨owner, heq.symm.trans h⟩

theorem recordOf_of_compile (h : (e.compile m).result = .ok d) (hkind : d.kind = .record) :
    RecordOf m e d := by
  have hdefined : DefinedAs m e d := compile_eq_ok h
  obtain ⟨owner, hrecord⟩ := compileRecord_of_compile h hkind
  refine ⟨?_, compileRecord_dependencies hrecord, ?_, ?_⟩
  · exact (hdefined.record hkind).fields.imp fun a field h => Attribute.hasType_of_becomes h
  · intro hself
    exact (hdefined.mentions hself).2.1 rfl
  · intro b hb
    obtain ⟨-, -, r, hr⟩ := hdefined.mentions hb
    obtain ⟨target, -, htarget, -⟩ := TypeRef.resolve_eq_ok_iff.1 hr
    exact ⟨target, htarget⟩

/-- An entry compiles exactly if nothing is wrong with it, and its error is else the first thing that
is. The definition of a record takes its fields and dependencies from the attributes in their order,
and from the base. -/
theorem compile_succeeds_iff_compiles (m : Model) (e : Entry) :
    ((∃ d, (e.compile m).result = .ok d) ↔ e.Compiles m) ∧
      (∀ d, (e.compile m).result = .ok d →
        DefinedAs m e d ∧ (d.kind = .record → RecordOf m e d)) ∧
      ∀ err, (e.compile m).result = .error err ↔ (e.faults m).head? = some err := by
  have hfails : FailsFirst (e.compile m).result (e.faults m) := failsFirst_compile m e
  refine ⟨?_, ?_, hfails⟩
  · rw [hfails.exists_ok_iff, faults_eq_nil_iff]
  · intro d hd
    exact ⟨compile_eq_ok hd, recordOf_of_compile hd⟩

end Entry

end UmlTyping
