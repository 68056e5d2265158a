import Mathlib.Data.List.Sort
import Mathlib.Order.Extension.Linear
import UmlTyping.Generation
import UmlTyping.Proofs.Reference

/-!
# Imports between modules

A module imports another exactly if an entry of the one package needs an entry of the other
(`imported_iff_packageNeeds`). Definitions are in order, but a module holds all of its package at
once, so what one module needs of another may stand behind what the other needs of it. Whether the
modules can be read one after the other is therefore a question of its own: they can exactly if the
imports have no cycle (`acyclic_iff_laidOut`). To read modules in an order is to read the definitions
in the order that `layOut` puts them in.
-/

namespace UmlTyping

open Relation (TransGen ReflTransGen)

/-! ## Relations without cycles -/

section Acyclic

variable {α : Type} {r : α → α → Prop}

/-- Along a relation without cycles what can be reached is a partial order. -/
theorem isPartialOrder_reflTransGen (hr : ∀ a, ¬ TransGen r a a) :
    IsPartialOrder α fun a b => ReflTransGen r b a where
  refl _ := .refl
  trans _ _ _ hab hbc := hbc.trans hab
  antisymm a b hba hab := by
    rcases Relation.reflTransGen_iff_eq_or_transGen.1 hab with rfl | hab
    · rfl
    · exact absurd (hab.trans_left hba) (hr a)

/-- Where a relation has no cycle, a list can be put in an order in which nothing is related to what
stands behind it. -/
theorem exists_perm_of_acyclic (hr : ∀ a, ¬ TransGen r a a) (l : List α) :
    ∃ order : List α, order.Perm l ∧ order.Pairwise fun a b => ¬ r a b := by
  classical
  -- any linear order that puts what can be reached in front will do to sort the list by
  have hpartial := isPartialOrder_reflTransGen hr
  rcases extend_partialOrder fun a b => ReflTransGen r b a with ⟨le, hlinear, hle⟩
  refine ⟨l.insertionSort le, List.perm_insertionSort le l, ?_⟩
  refine (List.pairwise_insertionSort le l).imp ?_
  intro a b hab hrel
  have hba : le b a := hle b a (.single hrel)
  have hsame : a = b := antisymm hab hba
  subst hsame
  exact hr a (.single hrel)

/-- An order in which nothing is related to what stands behind it leaves no room for cycles. -/
theorem acyclic_of_pairwise {order : List α} (hmem : ∀ a b, r a b → a ∈ order ∧ b ∈ order)
    (hirrefl : ∀ a, ¬ r a a) (horder : order.Pairwise fun a b => ¬ r a b) (a : α) :
    ¬ TransGen r a a := by
  classical
  -- a step of the relation leads to a place further in front
  have hstep : ∀ a b, r a b → order.idxOf b < order.idxOf a := by
    intro a b hab
    rcases hmem a b hab with ⟨ha, hb⟩
    have hltA : order.idxOf a < order.length := List.idxOf_lt_length_of_mem ha
    have hltB : order.idxOf b < order.length := List.idxOf_lt_length_of_mem hb
    have hgetA : order.get ⟨order.idxOf a, hltA⟩ = a := List.getElem_idxOf hltA
    have hgetB : order.get ⟨order.idxOf b, hltB⟩ = b := List.getElem_idxOf hltB
    rcases Nat.lt_trichotomy (order.idxOf b) (order.idxOf a) with hlt | heq | hgt
    · exact hlt
    · have hsame : a = b := (List.idxOf_inj ha).1 heq.symm
      subst hsame
      exact absurd hab (hirrefl a)
    · have hnot : ¬ r (order.get ⟨order.idxOf a, hltA⟩) (order.get ⟨order.idxOf b, hltB⟩) :=
        List.pairwise_iff_get.1 horder _ _ hgt
      rw [hgetA, hgetB] at hnot
      exact absurd hab hnot
  have hpath : ∀ b, TransGen r a b → order.idxOf b < order.idxOf a := by
    intro b hab
    induction hab with
    | single hab => exact hstep _ _ hab
    | tail _ hbc ih => exact (hstep _ _ hbc).trans ih
  intro hloop
  exact Nat.lt_irrefl _ (hpath a hloop)

end Acyclic

/-! ## What a module imports -/

namespace Modules

variable {pieces : List Piece} {ms : Modules} {p q : String}

/-- The module of the package `p` has the line that imports `q`. -/
def Imports (pieces : List Piece) (ms : Modules) (p q : String) : Prop :=
  ∃ qs, imports p (piecesOf p pieces) = .ok qs ∧
    ms.get? p = some (layout qs (codesOf p pieces)) ∧ q ∈ qs

/-- The source text of a module is that of its pieces and of the packages that they need. -/
theorem ComposedOf.exists_text (hms : ms.ComposedOf pieces) (h : Encoded pieces) {content : String}
    (hcontent : ms.get? p = some content) :
    ∃ qs, imports p (piecesOf p pieces) = .ok qs ∧ content = layout qs (codesOf p pieces) ∧
      ∀ q, q ∈ qs ↔ Imported p (piecesOf p pieces) q := by
  rcases exists_imports p (h.piecesOf p) with ⟨qs, hqs, hascending, hmem⟩
  rcases hms.isModule p content hcontent with ⟨qs', heq, hascending', hmem'⟩
  -- both lists are in ascending order and hold the same packages
  have hsame : qs' = qs :=
    hascending'.eq_of_mem_iff hascending fun q => (hmem' q).trans (hmem q).symm
  subst hsame
  exact ⟨qs', hqs, heq, hmem⟩

/-- A module imports the packages that have to be imported for its pieces. -/
theorem ComposedOf.imports_iff (hms : ms.ComposedOf pieces) (h : Encoded pieces) :
    Imports pieces ms p q ↔ Imported p (piecesOf p pieces) q := by
  constructor
  · rintro ⟨qs, hqs, hcontent, hq⟩
    rcases hms.exists_text h hcontent with ⟨qs', hqs', -, hmem⟩
    cases hqs.symm.trans hqs'
    exact (hmem q).1 hq
  · intro hq
    have hpiece : ∃ piece ∈ pieces, piece.package = p := by
      rcases hq with ⟨-, piece, hpiece, -⟩
      exact ⟨piece, by simpa [piecesOf] using hpiece⟩
    have hmodule : ms.contains p = true := (hms.contains_iff p).2 hpiece
    rcases Table.contains_eq_true_iff.1 hmodule with ⟨content, hcontent⟩
    rcases hms.exists_text h hcontent with ⟨qs, hqs, heq, hmem⟩
    exact ⟨qs, hqs, heq ▸ hcontent, (hmem q).2 hq⟩

end Modules

namespace Model

variable {m : Model} {roots : List Identifier} {ds : List Definition} {ms : Modules} {p q : String}
  {order : List String}

/-- An entry of the package `p` that the roots lead to needs an entry of another package `q`. -/
def PackageNeeds (m : Model) (roots : List Identifier) (p q : String) : Prop :=
  p ≠ q ∧ ∃ a b, m.Reachable roots a ∧ m.Needs a b ∧ a.package? = some p ∧ b.package? = some q

/-- The definition of an entry is in the package that the identifier of the entry encodes. -/
theorem OrdersClosure.package?_eq (h : OrdersClosure m roots ds) {d : Definition} (hd : d ∈ ds) :
    d.id.package? = some d.package := by
  rcases h.definedAs hd with ⟨e, -, hdefined⟩
  rw [hdefined.id_eq]
  exact hdefined.package?_eq

theorem OrdersClosure.needs_iff (h : OrdersClosure m roots ds) {d : Definition} (hd : d ∈ ds)
    {b : Identifier} : m.Needs d.id b ↔ b ∈ d.dependencies :=
  Model.needs_iff (define_eq_ok_iff.2 (h.compiled d hd))

theorem OrdersClosure.reachable (h : OrdersClosure m roots ds) {d : Definition} (hd : d ∈ ds) :
    m.Reachable roots d.id :=
  (h.mem_iff d.id).1 (List.mem_map_of_mem hd)

/-- What the roots lead to is defined in the package that it encodes. -/
theorem OrdersClosure.exists_definition (h : OrdersClosure m roots ds) {id : Identifier}
    (hid : m.Reachable roots id) (hp : id.package? = some p) :
    ∃ d ∈ ds, d.id = id ∧ d.package = p := by
  rcases List.mem_map.1 ((h.mem_iff id).2 hid) with ⟨d, hd, rfl⟩
  rw [h.package?_eq hd, Option.some.injEq] at hp
  exact ⟨d, hd, rfl, hp⟩

/-- Packages have to be imported as entries need one another. -/
theorem imported_iff_packageNeeds (h : OrdersClosure m roots ds) :
    Modules.Imported p (Modules.piecesOf p (ds.map (·.piece))) q ↔ m.PackageNeeds roots p q := by
  constructor
  · rintro ⟨hne, piece, hpiece, b, hb, hq⟩
    rcases List.mem_filter.1 hpiece with ⟨hmem, hp⟩
    rcases List.mem_map.1 hmem with ⟨d, hd, rfl⟩
    have hp : d.package = p := of_decide_eq_true hp
    refine ⟨hne.symm, d.id, b, h.reachable hd, (h.needs_iff hd).2 hb, ?_, hq⟩
    rw [h.package?_eq hd, hp]
  · rintro ⟨hne, a, b, hreachable, hneeds, hp, hq⟩
    rcases h.exists_definition hreachable hp with ⟨d, hd, rfl, hown⟩
    refine ⟨hne.symm, d.piece, ?_, b, (h.needs_iff hd).1 hneeds, hq⟩
    exact List.mem_filter.2 ⟨List.mem_map_of_mem hd, decide_eq_true hown⟩

/-! ## Reading modules in turn -/

/-- The definitions in the order in which modules present them that are read in turn. -/
def layOut (order : List String) (ds : List Definition) : List Definition :=
  order.flatMap fun p => ds.filter (·.package = p)

/-- The modules, each read once in this order, present every definition behind those that it depends
on. -/
structure LaidOut (m : Model) (roots : List Identifier) (ds : List Definition) (ms : Modules)
    (order : List String) : Prop where
  mem_iff : ∀ p, p ∈ order ↔ ms.contains p = true
  nodup : order.Nodup
  ordersClosure : OrdersClosure m roots (layOut order ds)

lemma mem_filter_package {d : Definition} :
    d ∈ ds.filter (·.package = p) ↔ d ∈ ds ∧ d.package = p := by
  rw [List.mem_filter, decide_eq_true_iff]

/-- Where identifiers do not repeat, a definition has one place. -/
lemma place_unique (hnodup : (ds.map (·.id)).Nodup) {i j : Nat} {d d' : Definition}
    (hi : ds[i]? = some d) (hj : ds[j]? = some d') (hid : d.id = d'.id) : i = j := by
  have hi' : (ds.map (·.id))[i]? = some d.id := by
    rw [List.getElem?_map, hi]
    rfl
  have hj' : (ds.map (·.id))[j]? = some d.id := by
    rw [List.getElem?_map, hj, hid]
    rfl
  have hlt : i < (ds.map (·.id)).length := (List.getElem?_eq_some_iff.1 hi').1
  exact (List.getElem?_inj hlt hnodup).1 (hi'.trans hj'.symm)

/-- Definitions of distinct entries stand behind what they depend on exactly if all that is there,
and none of them depends on itself or on one behind it. -/
theorem dependency_before_iff (hnodup : (ds.map (·.id)).Nodup) :
    (∀ (i : Nat) (d : Definition), ds[i]? = some d → ∀ b ∈ d.dependencies,
      ∃ (j : Nat) (d' : Definition), j < i ∧ ds[j]? = some d' ∧ d'.id = b) ↔
    (∀ d ∈ ds, ∀ b ∈ d.dependencies, b ∈ ds.map (·.id)) ∧ (∀ d ∈ ds, d.id ∉ d.dependencies) ∧
      ds.Pairwise fun d d' => d'.id ∉ d.dependencies := by
  constructor
  · intro hbefore
    -- what is not in front is no dependency, for a dependency has its place in front
    have hnot : ∀ {i j : Nat} {d d' : Definition}, ds[i]? = some d → ds[j]? = some d' → i ≤ j →
        d'.id ∉ d.dependencies := by
      intro i j d d' hi hj hle hb
      rcases hbefore i d hi d'.id hb with ⟨k, c, hk, hc, hid⟩
      have hsame : k = j := place_unique hnodup hc hj hid
      omega
    refine ⟨?_, ?_, ?_⟩
    · intro d hd b hb
      rcases List.getElem?_of_mem hd with ⟨i, hi⟩
      rcases hbefore i d hi b hb with ⟨j, d', -, hj, rfl⟩
      exact List.mem_map_of_mem (List.mem_of_getElem? hj)
    · intro d hd
      rcases List.getElem?_of_mem hd with ⟨i, hi⟩
      exact hnot hi hi le_rfl
    · rw [List.pairwise_iff_getElem]
      intro i j hi hj hij
      exact hnot (List.getElem?_eq_getElem hi) (List.getElem?_eq_getElem hj) hij.le
  · rintro ⟨hmem, hself, hpairwise⟩ i d hi b hb
    rcases List.mem_map.1 (hmem d (List.mem_of_getElem? hi) b hb) with ⟨d', hd', rfl⟩
    rcases List.getElem?_of_mem hd' with ⟨j, hj⟩
    refine ⟨j, d', ?_, hj, rfl⟩
    rcases List.getElem?_eq_some_iff.1 hi with ⟨hilt, rfl⟩
    rcases List.getElem?_eq_some_iff.1 hj with ⟨hjlt, rfl⟩
    rcases Nat.lt_trichotomy j i with hlt | heq | hgt
    · exact hlt
    · subst heq
      exact absurd hb (hself _ (List.getElem_mem hilt))
    · exact absurd hb (List.pairwise_iff_getElem.1 hpairwise i j hilt hjlt hgt)

/-- Definitions that are in order may be put in any other in which none depends on one behind it. -/
theorem OrdersClosure.perm_iff (h : OrdersClosure m roots ds) {ds' : List Definition}
    (hperm : ds'.Perm ds) :
    OrdersClosure m roots ds' ↔ ds'.Pairwise fun d d' => d'.id ∉ d.dependencies := by
  have hids : (ds'.map (·.id)).Perm (ds.map (·.id)) := hperm.map _
  have hnodup : (ds'.map (·.id)).Nodup := hids.nodup_iff.2 h.nodup
  rcases (dependency_before_iff h.nodup).1 h.dependency_before with ⟨hmem, hself, -⟩
  constructor
  · intro h'
    exact ((dependency_before_iff hnodup).1 h'.dependency_before).2.2
  · intro hpairwise
    refine ⟨?_, hnodup, (dependency_before_iff hnodup).2 ⟨?_, ?_, hpairwise⟩, ?_⟩
    · intro id
      rw [hids.mem_iff, h.mem_iff]
    · intro d hd b hb
      rw [hids.mem_iff]
      exact hmem d (hperm.mem_iff.1 hd) b hb
    · intro d hd
      exact hself d (hperm.mem_iff.1 hd)
    · intro d hd
      exact h.compiled d (hperm.mem_iff.1 hd)

section Order

variable (h : OrdersClosure m roots ds) (hmodules : ∀ p, p ∈ order ↔ ∃ d ∈ ds, d.package = p)
  (hnodup : order.Nodup)

include h hmodules

theorem PackageNeeds.mem_order (hneeds : m.PackageNeeds roots p q) : p ∈ order ∧ q ∈ order := by
  rcases hneeds with ⟨-, a, b, hreachable, hab, hp, hq⟩
  have hmem : ∀ {id package}, m.Reachable roots id → id.package? = some package →
      package ∈ order := by
    intro id package hid hpackage
    rcases h.exists_definition hid hpackage with ⟨d, hd, -, hown⟩
    exact (hmodules package).2 ⟨d, hd, hown⟩
  exact ⟨hmem hreachable hp, hmem (.step hreachable hab) hq⟩

include hnodup

omit h in
/-- Reading the modules in turn presents the same definitions. -/
theorem perm_layOut : (layOut order ds).Perm ds := by
  have hall : ds.filter (·.package ∈ order) = ds := by
    rw [List.filter_eq_self]
    intro d hd
    exact decide_eq_true ((hmodules d.package).2 ⟨d, hd, rfl⟩)
  have hgrouped := flatMap_filter_perm hnodup Definition.package ds
  rwa [hall] at hgrouped

/-- Modules can be read in turn exactly if no package needs one that comes behind it. -/
theorem ordersClosure_layOut_iff : OrdersClosure m roots (layOut order ds) ↔
    order.Pairwise fun p q => ¬ m.PackageNeeds roots p q := by
  rw [h.perm_iff (perm_layOut hmodules hnodup)]
  unfold layOut
  rw [List.pairwise_flatMap]
  constructor
  · rintro ⟨-, hbehind⟩
    refine hbehind.imp ?_
    rintro p q hapart ⟨-, a, b, hreachable, hab, hp, hq⟩
    rcases h.exists_definition hreachable hp with ⟨d, hd, rfl, hown⟩
    rcases h.exists_definition (.step hreachable hab) hq with ⟨d', hd', rfl, hown'⟩
    have hdependency : d'.id ∈ d.dependencies := (h.needs_iff hd).1 hab
    exact hapart d (mem_filter_package.2 ⟨hd, hown⟩) d' (mem_filter_package.2 ⟨hd', hown'⟩)
      hdependency
  · intro horder
    -- within a module the definitions keep the order in which they are resolved
    have hresolved : ds.Pairwise fun d d' => d'.id ∉ d.dependencies := (h.perm_iff (.refl ds)).1 h
    refine ⟨fun p _ => hresolved.filter _, (horder.and hnodup).imp ?_⟩
    rintro p q ⟨hnot, hne⟩ d hd d' hd' hb
    rcases mem_filter_package.1 hd with ⟨hmemD, rfl⟩
    rcases mem_filter_package.1 hd' with ⟨hmemD', rfl⟩
    have hneeds : m.Needs d.id d'.id := (h.needs_iff hmemD).2 hb
    apply hnot
    exact ⟨hne, d.id, d'.id, h.reachable hmemD, hneeds, h.package?_eq hmemD,
      h.package?_eq hmemD'⟩

end Order

/-! ## Generated modules -/

/-- The definitions of a resolution are composed into modules. -/
theorem exists_generate (hm : m.Coherent) (hds : (m.resolve roots).result = .ok ds) :
    ∃ ms, (m.generate roots).result = .ok ms ∧ ms.ComposedOf (ds.map (·.piece)) := by
  have hclosure : OrdersClosure m roots ds := ordersClosure_of_resolve hm hds
  rcases Modules.compose_composedOf (encoded_of_ordersClosure hclosure) with ⟨ms, hms, hcomposed⟩
  exact ⟨ms, Run.result_bind_eq_ok_iff.2 ⟨ds, hds, hms⟩, hcomposed⟩

/-- Modules that are generated are composed of the definitions of a resolution. -/
theorem composedOf_of_generate (hm : m.Coherent) (h : (m.generate roots).result = .ok ms) :
    ∃ ds, (m.resolve roots).result = .ok ds ∧ OrdersClosure m roots ds ∧
      ms.ComposedOf (ds.map (·.piece)) := by
  rcases Run.result_bind_eq_ok_iff.1 h with ⟨ds, hds, -⟩
  rcases exists_generate hm hds with ⟨ms', hms', hcomposed⟩
  cases h.symm.trans hms'
  exact ⟨ds, hds, ordersClosure_of_resolve hm hds, hcomposed⟩

section Composed

variable (h : OrdersClosure m roots ds) (hms : ms.ComposedOf (ds.map (·.piece)))

include h hms

theorem imports_iff_packageNeeds :
    Modules.Imports (ds.map (·.piece)) ms p q ↔ m.PackageNeeds roots p q := by
  rw [hms.imports_iff (encoded_of_ordersClosure h), imported_iff_packageNeeds h]

/-- The needs between packages have no cycle exactly if the modules can be read in some order. -/
theorem acyclic_iff_laidOut : (∀ p, ¬ TransGen (m.PackageNeeds roots) p p) ↔
    ∃ order, LaidOut m roots ds ms order := by
  have hmodules : ∀ p, ms.contains p = true ↔ ∃ d ∈ ds, d.package = p := by
    intro p
    rw [hms.contains_iff]
    simp [Definition.piece]
  constructor
  · intro hacyclic
    -- the needs of the packages put the modules that there are in order
    rcases exists_perm_of_acyclic hacyclic ms.keys with ⟨order, hperm, horder⟩
    have hmem : ∀ p, p ∈ order ↔ ms.contains p = true := by
      intro p
      rw [hperm.mem_iff, Table.mem_keys_iff, Table.contains_eq_true_iff]
    have hnodup : order.Nodup := hperm.nodup_iff.2 ms.keys_pairwise.nodup
    refine ⟨order, hmem, hnodup, ?_⟩
    exact (ordersClosure_layOut_iff h (fun p => (hmem p).trans (hmodules p)) hnodup).2 horder
  · rintro ⟨order, hmem, hnodup, hlaid⟩
    have hpackages : ∀ p, p ∈ order ↔ ∃ d ∈ ds, d.package = p :=
      fun p => (hmem p).trans (hmodules p)
    have horder := (ordersClosure_layOut_iff h hpackages hnodup).1 hlaid
    exact acyclic_of_pairwise (fun _ _ hneeds => hneeds.mem_order h hpackages)
      (fun _ hneeds => hneeds.1 rfl) horder

end Composed

/-- The imports between the modules of a generation are the needs between their packages. They have
no cycle exactly if the modules can be read in some order. -/
theorem generate_imports (hm : m.IsLoaded) (h : (m.generate roots).result = .ok ms) :
    ∃ ds, (m.resolve roots).result = .ok ds ∧
      (∀ p q, Modules.Imports (ds.map (·.piece)) ms p q ↔ m.PackageNeeds roots p q) ∧
      ((∀ p, ¬ TransGen (Modules.Imports (ds.map (·.piece)) ms) p p) ↔
        ∃ order, LaidOut m roots ds ms order) := by
  rcases composedOf_of_generate hm.coherent h with ⟨ds, hds, hclosure, hcomposed⟩
  have himports : Modules.Imports (ds.map (·.piece)) ms = m.PackageNeeds roots :=
    funext₂ fun _ _ => propext (imports_iff_packageNeeds hclosure hcomposed)
  refine ⟨ds, hds, ?_, ?_⟩
  · intro p q
    rw [himports]
  · rw [himports]
    exact acyclic_iff_laidOut hclosure hcomposed

theorem sample_generate_imports : ∃ ds ms,
    (sample.generate ["ID_flight.Node"]).result = .ok ms ∧
    (sample.resolve ["ID_flight.Node"]).result = .ok ds ∧
    (∀ p q, Modules.Imports (ds.map (·.piece)) ms p q ↔
      sample.PackageNeeds ["ID_flight.Node"] p q) ∧
    ((∀ p, ¬ TransGen (Modules.Imports (ds.map (·.piece)) ms) p p) ↔
      ∃ order, LaidOut sample ["ID_flight.Node"] ds ms order) := by
  rcases sample_resolve_node with ⟨ds, hds, -⟩
  rcases exists_generate sample_isLoaded.coherent hds with ⟨ms, hms, -⟩
  rcases generate_imports sample_isLoaded hms with ⟨ds', hds', himports⟩
  exact ⟨ds', ms, hms, hds', himports⟩

/-- Two packages that need each other, though no entry needs itself. -/
def mutualDocument : String :=
  "<XMI><Model>
    <packagedElement type='uml:Package' name='common'>
      <packagedElement type='uml:PrimitiveType' id='ID_common.Text' name='Text'/>
      <packagedElement type='uml:Class' id='ID_common.Report' name='Report'>
        <ownedAttribute name='flight'><type idref='ID_flight.Flight'/></ownedAttribute>
      </packagedElement>
    </packagedElement>
    <packagedElement type='uml:Package' name='flight'>
      <packagedElement type='uml:Class' id='ID_flight.Flight' name='Flight'>
        <ownedAttribute name='code'><type idref='ID_common.Text'/></ownedAttribute>
      </packagedElement>
    </packagedElement>
  </Model></XMI>"

/-- The model that the document holds. -/
def mutualModel : Model where
  packages := Table.ofList
    [("common", ⟨"common", Table.ofList
      [("ID_common.Text", ⟨"ID_common.Text", "uml:PrimitiveType", "Text", [], [], none⟩),
       ("ID_common.Report", ⟨"ID_common.Report", "uml:Class", "Report", [],
         [⟨"flight", "ID_flight.Flight", "1", "1"⟩], none⟩)]⟩),
     ("flight", ⟨"flight", Table.ofList
      [("ID_flight.Flight", ⟨"ID_flight.Flight", "uml:Class", "Flight", [],
         [⟨"code", "ID_common.Text", "1", "1"⟩], none⟩)]⟩)]

set_option maxRecDepth 100000 in
theorem load_mutualDocument : (load mutualDocument.toUTF8).result = .ok mutualModel := by
  unfold mutualDocument
  apply load_ofList
  decide +kernel

theorem mutualModel_resolve : ∃ ds, (mutualModel.resolve ["ID_common.Report"]).result = .ok ds ∧
    mutualModel.Needs "ID_common.Report" "ID_flight.Flight" ∧
    mutualModel.Needs "ID_flight.Flight" "ID_common.Text" := by
  have hdefine : (∃ d, mutualModel.define "ID_common.Text" = .ok d ∧ d.id = "ID_common.Text" ∧
      d.dependencies = []) ∧
      (∃ d, mutualModel.define "ID_flight.Flight" = .ok d ∧ d.id = "ID_flight.Flight" ∧
        d.dependencies = ["ID_common.Text"]) ∧
      ∃ d, mutualModel.define "ID_common.Report" = .ok d ∧ d.id = "ID_common.Report" ∧
        d.dependencies = ["ID_flight.Flight"] :=
    ⟨exists_define (by decide +kernel), exists_define (by decide +kernel),
      exists_define (by decide +kernel)⟩
  rcases hdefine with ⟨⟨text, htext, -, hbelowText⟩, ⟨flight, hflight, -, hbelowFlight⟩,
    report, hreport, -, hbelowReport⟩
  -- the walk goes down to the text and emits on its way back
  let p₁ := ({} : Progress).emit "ID_common.Text" text
  let p₂ := p₁.emit "ID_flight.Flight" flight
  have hwalkText : Walk mutualModel ["ID_common.Report", "ID_flight.Flight", "ID_common.Text"] {}
      text.dependencies (.ok {}) := by
    rw [hbelowText]
    exact .done
  have hwalkFlight : Walk mutualModel ["ID_common.Report", "ID_flight.Flight"] {}
      flight.dependencies (.ok p₁) := by
    rw [hbelowFlight]
    exact .emit (by simp) (by simp) htext hwalkText .done
  have hwalkReport : Walk mutualModel ["ID_common.Report"] {} report.dependencies (.ok p₂) := by
    rw [hbelowReport]
    exact .emit (by simp) (by simp) hflight hwalkFlight .done
  have hwalk : Walk mutualModel [] {} ["ID_common.Report"] (.ok (p₂.emit _ report)) :=
    .emit (by simp) (by simp) hreport hwalkReport .done
  refine ⟨_, hwalk.resolve_eq_ok, ⟨report, hreport, ?_⟩, flight, hflight, ?_⟩
  · simp [hbelowReport]
  · simp [hbelowFlight]

/-- Modules that import each other are generated, and there is no order to read them in. -/
theorem mutual_generate_imports : ∃ m ds ms, (load mutualDocument.toUTF8).result = .ok m ∧
    (m.resolve ["ID_common.Report"]).result = .ok ds ∧
    (m.generate ["ID_common.Report"]).result = .ok ms ∧
    Modules.Imports (ds.map (·.piece)) ms "common" "flight" ∧
    Modules.Imports (ds.map (·.piece)) ms "flight" "common" ∧
    ¬ ∃ order, LaidOut m ["ID_common.Report"] ds ms order := by
  have hcoherent : mutualModel.Coherent := IsLoaded.coherent ⟨_, load_mutualDocument⟩
  rcases mutualModel_resolve with ⟨ds, hds, hreport, hflight⟩
  rcases exists_generate hcoherent hds with ⟨ms, hms, hcomposed⟩
  have hclosure := ordersClosure_of_resolve hcoherent hds
  have hroot : mutualModel.Reachable ["ID_common.Report"] "ID_common.Report" := .root (by simp)
  have hout : mutualModel.PackageNeeds ["ID_common.Report"] "common" "flight" :=
    ⟨by decide, _, _, hroot, hreport, by decide, by decide⟩
  have hback : mutualModel.PackageNeeds ["ID_common.Report"] "flight" "common" :=
    ⟨by decide, _, _, .step hroot hreport, hflight, by decide, by decide⟩
  refine ⟨mutualModel, ds, ms, load_mutualDocument, hds, hms, ?_, ?_, ?_⟩
  · exact (imports_iff_packageNeeds hclosure hcomposed).2 hout
  · exact (imports_iff_packageNeeds hclosure hcomposed).2 hback
  · intro hlaid
    exact (acyclic_iff_laidOut hclosure hcomposed).2 hlaid "common" (.tail (.single hout) hback)

end Model

end UmlTyping
