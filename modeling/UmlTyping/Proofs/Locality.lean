import UmlTyping.Generation
import UmlTyping.Proofs.Walk

/-!
# What a generation looks at

A generation looks at those entries of a model that its roots lead to by being mentioned, and at
nothing else: two models that agree there give the same modules, fail with the same error, and
report the same events on the way (`generate_local`). So an entry that no root leads to is free to
be broken.

`Mentioned` follows every reference that an entry makes, whether or not the entry compiles. It
therefore holds what `Reachable` leaves out: the scalars, the record itself, and whatever is looked
up before an error is found.
-/

namespace UmlTyping

/-- A computation may be continued in two ways that agree on the value that it has. -/
lemma Run.bind_congr {ε α β : Type} {x : Run ε α} {f g : α → Run ε β}
    (h : ∀ a, x.result = .ok a → f a = g a) : x >>= f = x >>= g := by
  obtain ⟨events, result⟩ := x
  cases result with
  | error e => rfl
  | ok a =>
    have hfg : f a = g a := h a rfl
    show Run.andThen _ f = Run.andThen _ g
    simp only [Run.andThen, hfg]

namespace Model

/-- The identifiers that the roots lead to along everything that entries mention. -/
inductive Mentioned (m : Model) (roots : List Identifier) : Identifier → Prop
  | root {id : Identifier} : id ∈ roots → Mentioned m roots id
  | step {a b : Identifier} {e : Entry} : Mentioned m roots a → m.find? a = some e →
      e.Mentions b → Mentioned m roots b

/-- Two models find the same under each identifier of a set, and agree on whether it is a built-in
primitive. -/
def AgreeOn (m m' : Model) (s : Identifier → Prop) : Prop :=
  ∀ id, s id → m.find? id = m'.find? id ∧
    m.files primitivePackage id = m'.files primitivePackage id

/-- A set holds all that the entries found under its members mention. -/
def MentionClosed (m : Model) (s : Identifier → Prop) : Prop :=
  ∀ a e b, s a → m.find? a = some e → e.Mentions b → s b

theorem mentionClosed_mentioned (m : Model) (roots : List Identifier) :
    m.MentionClosed (m.Mentioned roots) := by
  intro a e b ha he hb
  exact .step ha he hb

/-- A set with the roots in it that holds what its entries mention holds all that is mentioned. -/
theorem Mentioned.mem_of_closed {m : Model} {roots : List Identifier} {s : Identifier → Prop}
    {id : Identifier} (hs : m.MentionClosed s) (hroots : ∀ id ∈ roots, s id)
    (h : m.Mentioned roots id) : s id := by
  induction h with
  | root hid => exact hroots _ hid
  | step _ he hb ih => exact hs _ _ _ ih he hb

end Model

variable {m m' : Model} {owner : String}

/-! ## Compiling an entry -/

theorem TypeRef.resolve_congr {id : Identifier} (h : m.find? id = m'.find? id) :
    TypeRef.resolve m id owner = TypeRef.resolve m' id owner := by
  unfold TypeRef.resolve
  rw [h]

/-- An attribute is resolved alike where the models agree on its type. -/
theorem Attribute.resolve_congr {a : Attribute} (h : m.AgreeOn m' (· = a.typeRef)) :
    a.resolve m owner = a.resolve m' owner := by
  obtain ⟨hfind, hfiles⟩ := h a.typeRef rfl
  unfold Attribute.resolve
  rw [hfiles, TypeRef.resolve_congr hfind]

theorem Fields.addAttributes_congr {id : Identifier} {f : Fields} {attributes : List Attribute}
    (h : m.AgreeOn m' (· ∈ attributes.map (·.typeRef))) :
    f.addAttributes m id owner attributes = f.addAttributes m' id owner attributes := by
  induction attributes generalizing f with
  | nil => rfl
  | cons a rest ih =>
    have hfirst : a.resolve m owner = a.resolve m' owner := by
      refine Attribute.resolve_congr fun id hid => h id ?_
      rw [hid]
      exact List.mem_cons_self
    have hrest : m.AgreeOn m' (· ∈ rest.map (·.typeRef)) :=
      fun id hid => h id (List.mem_cons_of_mem _ hid)
    rw [addAttributes, addAttributes]
    have hadd : f.addAttribute m id owner a = f.addAttribute m' id owner a := by
      unfold addAttribute
      rw [hfirst]
    rw [hadd]
    exact Run.bind_congr fun f' _ => ih hrest

namespace Entry

variable {e : Entry}

theorem resolveBase_congr (h : ∀ id, e.generalization = some id → m.find? id = m'.find? id) :
    e.resolveBase m owner = e.resolveBase m' owner := by
  unfold resolveBase
  cases hgeneral : e.generalization with
  | none => rfl
  | some general =>
    dsimp only
    rw [TypeRef.resolve_congr (h general hgeneral)]

/-- An entry compiles alike in models that agree on what it mentions. -/
theorem compile_congr (h : m.AgreeOn m' e.Mentions) : e.compile m = e.compile m' := by
  have hfields : ∀ owner, Fields.addAttributes m e.id owner {} e.attributes =
      Fields.addAttributes m' e.id owner {} e.attributes :=
    fun owner => Fields.addAttributes_congr fun id hid => h id (Or.inl hid)
  have hbase : ∀ owner, e.resolveBase m owner = e.resolveBase m' owner :=
    fun owner => resolveBase_congr fun id hid => (h id (Or.inr hid)).1
  have hrecord : ∀ owner, e.compileRecord m owner = e.compileRecord m' owner := by
    intro owner
    unfold compileRecord
    rw [hfields, hbase]
  unfold compile
  simp only [hrecord]

end Entry

namespace Model

variable {s : Identifier → Prop} {chain roots : List Identifier} {p : Progress} {id : Identifier}

/-! ## Resolving roots -/

/-- What happens to an identifier before its entry is compiled depends on its look-up alone. -/
theorem visit_congr_of_stop (h : m.find? id = m'.find? id)
    (hstop : id ∈ p.emitted ∨ id ∈ chain ∨ m.find? id = none) :
    visit m chain p id = visit m' chain p id := by
  rw [visit, visit]
  by_cases hemitted : id ∈ p.emitted
  · rw [if_pos hemitted, if_pos hemitted]
  rw [if_neg hemitted, if_neg hemitted]
  by_cases hchain : id ∈ chain
  · rw [dif_pos hchain, dif_pos hchain]
  rw [dif_neg hchain, dif_neg hchain]
  have hnone : m.find? id = none := (hstop.resolve_left hemitted).resolve_left hchain
  split
  · split
    · rfl
    next e he => cases (h.symm.trans hnone).symm.trans he
  next e he => cases hnone.symm.trans he

/-- A visit goes the same way in both models if what it finds below goes the same way. -/
theorem visit_congr (hs : m.MentionClosed s) (h : m.AgreeOn m' s) (hid : s id)
    (hbelow : ∀ e ids, id ∉ chain → m.find? id = some e → (∀ b ∈ ids, s b) →
      visitAll m (chain ++ [id]) p ids = visitAll m' (chain ++ [id]) p ids) :
    visit m chain p id = visit m' chain p id := by
  have hfind : m.find? id = m'.find? id := (h id hid).1
  by_cases hemitted : id ∈ p.emitted
  · exact visit_congr_of_stop hfind (Or.inl hemitted)
  by_cases hchain : id ∈ chain
  · exact visit_congr_of_stop hfind (Or.inr (Or.inl hchain))
  cases he : m.find? id with
  | none => exact visit_congr_of_stop hfind (Or.inr (Or.inr he))
  | some e =>
    have hcompile : e.compile m = e.compile m' :=
      Entry.compile_congr fun b hb => h b (hs id e b hid he hb)
    rw [visit_found hemitted hchain he, visit_found hemitted hchain (hfind ▸ he), ← hcompile]
    refine Run.bind_congr fun d hd => ?_
    -- whatever a definition depends on, its entry mentions
    have hdependencies : ∀ b ∈ d.dependencies, s b :=
      fun b hb => hs id e b hid he ((Entry.compile_eq_ok hd).mentions hb).1
    rw [hbelow e d.dependencies hchain he hdependencies]

/-- Two models that agree on a set are walked in step, as long as the set holds all that its entries
mention: the walk cannot leave it. -/
theorem visitAll_congr (hs : m.MentionClosed s) (h : m.AgreeOn m' s) (chain : List Identifier)
    (p : Progress) (ids : List Identifier) (hids : ∀ id ∈ ids, s id) :
    visitAll m chain p ids = visitAll m' chain p ids := by
  match ids with
  | [] => rw [visitAll, visitAll]
  | id :: rest =>
    obtain ⟨hid, hrest⟩ := List.forall_mem_cons.1 hids
    have hvisit : visit m chain p id = visit m' chain p id := by
      refine visit_congr hs h hid fun e ids hchain he hids => ?_
      -- one more identifier of the model is on the chain, so fewer remain
      have hlt : m.remaining (chain ++ [id]) < m.remaining chain :=
        remaining_append_lt (mem_ids_of_find?_eq_some he) hchain
      exact visitAll_congr hs h (chain ++ [id]) p ids hids
    rw [visitAll, visitAll, hvisit]
    exact Run.bind_congr fun p' _ => visitAll_congr hs h chain p' rest hrest
termination_by (m.remaining chain, ids.length)

theorem visitRoots_congr (hs : m.MentionClosed s) (h : m.AgreeOn m' s) (p : Progress)
    (hroots : ∀ id ∈ roots, s id) : visitRoots m p roots = visitRoots m' p roots := by
  induction roots generalizing p with
  | nil => rfl
  | cons root rest ih =>
    obtain ⟨hroot, hrest⟩ := List.forall_mem_cons.1 hroots
    have hvisit : visit m [] p root = visit m' [] p root :=
      visit_congr hs h hroot fun _ ids _ _ hids => visitAll_congr hs h _ p ids hids
    rw [visitRoots, visitRoots, hvisit]
    refine Run.bind_congr fun _ _ => Run.bind_congr fun p' _ => ?_
    exact ih p' hrest

/-! ## Generating modules -/

/-- Resolution and generation are the same in two models that agree on all that the roots mention,
outcome and events alike. -/
theorem generate_local {roots : List Identifier} (h : m.AgreeOn m' (m.Mentioned roots)) :
    m.resolve roots = m'.resolve roots ∧ m.generate roots = m'.generate roots := by
  have hresolve : m.resolve roots = m'.resolve roots := by
    have hroots : ∀ id ∈ roots, m.Mentioned roots id := fun _ hid => .root hid
    unfold resolve
    rw [visitRoots_congr (mentionClosed_mentioned m roots) h {} hroots]
  refine ⟨hresolve, ?_⟩
  unfold generate
  rw [hresolve]

/-- The sample beside a package of which nothing can be used: an entry of no known kind, a record
that is its own base, and one with an attribute of a type that does not exist. -/
def cluttered : Model where
  packages := sample.packages.insert "scrap" ⟨"scrap", Table.ofList
    [("ID_scrap.Odd", ⟨"ID_scrap.Odd", "uml:Interface", "Odd", [], [], none⟩),
     ("ID_scrap.Loop", ⟨"ID_scrap.Loop", "uml:Class", "Loop", [], [], some "ID_scrap.Loop"⟩),
     ("ID_scrap.Lost", ⟨"ID_scrap.Lost", "uml:Class", "Lost", [],
       [⟨"away", "ID_nowhere.Thing", "1", "7"⟩], none⟩)]⟩

/-- The roots of the sample mention few of its entries. -/
theorem sample_mentioned {id : Identifier} (h : sample.Mentioned ["ID_flight.Node"] id) :
    id ∈ ["ID_flight.Node", "ID_common.Text", "ID_common.Named"] := by
  have hlisted : ∀ a ∈ ["ID_flight.Node", "ID_common.Text", "ID_common.Named"],
      ∀ e ∈ sample.find? a, ∀ b ∈ e.attributes.map (·.typeRef) ++ e.generalization.toList,
        b ∈ ["ID_flight.Node", "ID_common.Text", "ID_common.Named"] := by
    decide +kernel
  refine Mentioned.mem_of_closed ?_ (by simp) h
  intro a e b ha he hb
  refine hlisted a ha e he b ?_
  rcases hb with hb | hb
  · exact List.mem_append_left _ hb
  · exact List.mem_append_right _ (Option.mem_toList.2 hb)

theorem sample_generate_local :
    sample.AgreeOn cluttered (sample.Mentioned ["ID_flight.Node"]) ∧
    sample.resolve ["ID_flight.Node"] = cluttered.resolve ["ID_flight.Node"] ∧
    sample.generate ["ID_flight.Node"] = cluttered.generate ["ID_flight.Node"] := by
  have hagree : sample.AgreeOn cluttered (sample.Mentioned ["ID_flight.Node"]) := by
    have hlisted : ∀ id ∈ ["ID_flight.Node", "ID_common.Text", "ID_common.Named"],
        sample.find? id = cluttered.find? id ∧
          sample.files primitivePackage id = cluttered.files primitivePackage id := by
      decide +kernel
    exact fun id hid => hlisted id (sample_mentioned hid)
  exact ⟨hagree, generate_local hagree⟩

end Model

end UmlTyping
