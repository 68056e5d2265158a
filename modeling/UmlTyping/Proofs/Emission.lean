import UmlTyping.Proofs.Composition
import UmlTyping.Proofs.Faults

/-!
# Pieces of any origin

Pieces that come of a resolution are ordered and their dependencies lie in packages. Composing takes
any pieces, in any order and with any dependencies. It regards the pieces of each package alone, so
how the packages are interleaved does not matter, neither to the modules (`WrittenOut`) nor to the
error: that is the first of the `faults` when the packages are taken in ascending order, and in a
package its pieces in theirs.
-/

namespace UmlTyping.Modules

variable {pieces : List Piece} {ms : Modules}

/-- What is wrong with a dependency: it encodes no package. -/
def packageFaults (id : Identifier) : List DefinitionError :=
  if id.package? = none then [.model (.invalidIdentifier id)] else []

/-- What is wrong with the dependencies of pieces, in the order of the pieces. -/
def importFaults (pieces : List Piece) : List DefinitionError :=
  pieces.flatMap fun piece => piece.dependencies.flatMap packageFaults

/-- What is wrong with pieces, package by package in ascending order. -/
def faults (pieces : List Piece) : List DefinitionError :=
  (packages pieces).flatMap fun package => importFaults (piecesOf package pieces)

/-- The modules are those of pieces, each written out in its package. -/
structure WrittenOut (pieces : List Piece) (ms : Modules) : Prop where
  /-- There is a module for each package that occurs. -/
  mem_keys : ∀ p, p ∈ ms.keys ↔ ∃ piece ∈ pieces, piece.package = p
  /-- A module consists of the import of the typing names, a line for each package that it imports,
  in ascending order, and the code of the pieces of its package in their order. -/
  text : ∀ p text, ms.get? p = some text → ∃ qs : List String, qs.Pairwise (· < ·) ∧
    (∀ q, q ∈ qs ↔ Imported p (piecesOf p pieces) q) ∧
    text = "from typing import Literal, TypedDict, Union\n" ++
      String.join (qs.map fun q => "from . import " ++ q ++ "\n") ++ "\n\n" ++
      String.join ((piecesOf p pieces).map fun piece => piece.code ++ "\n\n")
  /-- No piece is left out and none is written twice. -/
  perm : (ms.keys.flatMap (piecesOf · pieces)).Perm pieces

/-! ## The first dependency without a package -/

theorem failsFirst_packageOf (id : Identifier) :
    FailsFirst (packageOf id) (packageFaults id) := by
  unfold packageOf packageFaults
  cases id.package? with
  | none => exact failsFirst_error _ []
  | some package => exact failsFirst_ok package

theorem failsFirst_imports (package : String) (pieces : List Piece) :
    FailsFirst (imports package pieces) (importFaults pieces) := by
  unfold imports importFaults
  rw [← List.flatMap_assoc]
  exact (failsFirst_mapM failsFirst_packageOf _).map _

/-- Packages are composed in turn, and what is composed before plays no part in it. -/
theorem failsFirst_composeFrom (pieces : List Piece) (ps : List String) (done : Modules) :
    FailsFirst (composeFrom pieces done ps).result
      (ps.flatMap fun package => importFaults (piecesOf package pieces)) := by
  induction ps generalizing done with
  | nil => exact failsFirst_ok done
  | cons package rest ih =>
    rw [result_composeFrom_cons, List.flatMap_cons]
    exact (failsFirst_imports package _).bind fun qs _ => ih _

theorem failsFirst_compose (pieces : List Piece) :
    FailsFirst (compose pieces).result (faults pieces) :=
  failsFirst_composeFrom pieces (packages pieces) ∅

theorem importFaults_eq_nil_iff : importFaults pieces = [] ↔ Encoded pieces := by
  unfold importFaults Encoded
  simp only [List.flatMap_eq_nil_iff]
  refine forall₂_congr fun piece _ => forall₂_congr fun id _ => ?_
  rw [← Option.ne_none_iff_exists', packageFaults, ite_eq_right_iff]
  simp

/-- Every piece is looked at with those of its package. -/
theorem faults_eq_nil_iff : faults pieces = [] ↔ Encoded pieces := by
  unfold faults
  simp only [List.flatMap_eq_nil_iff, importFaults_eq_nil_iff]
  constructor
  · intro h piece hpiece
    have hpackage : piece.package ∈ packages pieces := mem_packages.2 ⟨piece, hpiece, rfl⟩
    have hown : piece ∈ piecesOf piece.package pieces :=
      List.mem_filter.2 ⟨hpiece, decide_eq_true rfl⟩
    exact h piece.package hpackage piece hown
  · intro h package _
    exact h.piecesOf package

/-! ## What is written -/

theorem ComposedOf.writtenOut (h : ComposedOf pieces ms) : WrittenOut pieces ms := by
  have hkeys : ∀ p, p ∈ ms.keys ↔ ∃ piece ∈ pieces, piece.package = p := by
    intro p
    rw [Table.mem_keys_iff, ← Table.contains_eq_true_iff, h.contains_iff]
  refine ⟨hkeys, ?_, ?_⟩
  · intro p text htext
    obtain ⟨qs, heq, hascending, hmem⟩ := h.isModule p text htext
    refine ⟨qs, hascending, hmem, ?_⟩
    unfold layout codesOf at heq
    rw [List.map_map, Function.comp_def] at heq
    exact heq
  · have hnodup : ms.keys.Nodup := ms.keys_pairwise.imp String.ne_of_lt
    have hall : pieces.filter (·.package ∈ ms.keys) = pieces := by
      rw [List.filter_eq_self]
      intro piece hpiece
      exact decide_eq_true ((hkeys _).2 ⟨piece, hpiece, rfl⟩)
    have hgrouped := flatMap_filter_perm hnodup Piece.package pieces
    rwa [hall] at hgrouped

/-- Pieces of any origin are composed exactly if all their dependencies encode packages. Each package
then has its module, with its imports in ascending order and its pieces in theirs. Else the error
names the first dependency without a package, the packages taken in ascending order. -/
theorem compose_succeeds_iff_encoded (pieces : List Piece) :
    ((∃ ms, (compose pieces).result = .ok ms) ↔ Encoded pieces) ∧
      (∀ ms, (compose pieces).result = .ok ms → WrittenOut pieces ms) ∧
      (packages pieces).Pairwise (· < ·) ∧
      (∀ p, p ∈ packages pieces ↔ ∃ piece ∈ pieces, piece.package = p) ∧
      ∀ err, (compose pieces).result = .error err ↔ (faults pieces).head? = some err := by
  have hfails : FailsFirst (compose pieces).result (faults pieces) := failsFirst_compose pieces
  have hencoded : (∃ ms, (compose pieces).result = .ok ms) ↔ Encoded pieces := by
    rw [hfails.exists_ok_iff, faults_eq_nil_iff]
  refine ⟨hencoded, ?_, Table.keys_pairwise _, fun p => mem_packages, hfails⟩
  intro ms hms
  obtain ⟨ms', hms', hcomposed⟩ := compose_composedOf (hencoded.1 ⟨ms, hms⟩)
  rw [hms] at hms'
  cases hms'
  exact hcomposed.writtenOut

/-- The piece that stands second is looked at first, for its package is the smaller one. -/
example : faults [⟨"flight", ["Plan"], ""⟩, ⟨"common", ["ID_common.Text", "Unit"], ""⟩] =
    [.model (.invalidIdentifier "Unit"), .model (.invalidIdentifier "Plan")] := by
  decide

end UmlTyping.Modules
