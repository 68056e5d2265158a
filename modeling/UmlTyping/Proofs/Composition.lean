import Mathlib.Data.List.Perm.Basic
import UmlTyping.Module
import UmlTyping.Proofs.Outcome

/-!
# Composed modules

`Modules.compose` succeeds if every dependency encodes a package. It then gives one module for each
package that has a piece, with the pieces of that package in their order, and the module imports
exactly the other packages that those pieces depend on (`ComposedOf`). Each piece belongs to one
package, so no piece is lost in the grouping and none comes twice (`flatMap_filter_perm`).
-/

namespace UmlTyping

/-- To group a list by distinct keys neither drops nor repeats any of the elements with these keys. -/
theorem flatMap_filter_perm {α κ : Type} [DecidableEq κ] {keys : List κ} (h : keys.Nodup)
    (key : α → κ) (xs : List α) :
    (keys.flatMap fun k => xs.filter (key · = k)).Perm (xs.filter (key · ∈ keys)) := by
  induction keys with
  | nil => simp
  | cons k rest ih =>
    rw [List.nodup_cons] at h
    -- the elements of the first key are told apart from those of the others
    have hfirst : (xs.filter (key · ∈ k :: rest)).filter (key · = k) = xs.filter (key · = k) := by
      rw [List.filter_filter]
      refine List.filter_congr fun x _ => ?_
      by_cases hx : key x = k <;> simp [hx]
    have hothers : (xs.filter (key · ∈ k :: rest)).filter (fun x => !decide (key x = k)) =
        xs.filter (key · ∈ rest) := by
      rw [List.filter_filter]
      refine List.filter_congr fun x _ => ?_
      by_cases hx : key x = k
      · simp [hx, h.1]
      · simp [hx]
    have hsplit := List.filter_append_perm (key · = k) (xs.filter (key · ∈ k :: rest))
    rw [hfirst, hothers] at hsplit
    rw [List.flatMap_cons]
    exact ((ih h.2).append_left _).trans hsplit

namespace Modules

variable {pieces : List Piece} {package p q : String}

/-- Every dependency encodes a package. -/
def Encoded (pieces : List Piece) : Prop :=
  ∀ piece ∈ pieces, ∀ id ∈ piece.dependencies, ∃ q, Identifier.package? id = some q

/-- The package `q` has to be imported for pieces of the package `package`. -/
def Imported (package : String) (pieces : List Piece) (q : String) : Prop :=
  q ≠ package ∧ ∃ piece ∈ pieces, ∃ id ∈ piece.dependencies, Identifier.package? id = some q

/-! ## Imports -/

theorem mapM_packageOf {ids : List Identifier} (h : ∀ id ∈ ids, ∃ q, id.package? = some q) :
    ∃ qs, ids.mapM packageOf = .ok qs ∧ ∀ q, q ∈ qs ↔ ∃ id ∈ ids, id.package? = some q := by
  induction ids with
  | nil => exact ⟨[], rfl, by simp⟩
  | cons id rest ih =>
    rcases h id List.mem_cons_self with ⟨q₀, hq₀⟩
    rcases ih fun id hid => h id (List.mem_cons_of_mem _ hid) with ⟨qs, hqs, hmem⟩
    have hfirst : packageOf id = .ok q₀ := by
      unfold packageOf
      rw [hq₀]
    refine ⟨q₀ :: qs, ?_, ?_⟩
    · rw [List.mapM_cons, hfirst, hqs]
      rfl
    · intro q
      rw [List.mem_cons, hmem]
      constructor
      · rintro (rfl | ⟨b, hb, hq⟩)
        · exact ⟨id, List.mem_cons_self, hq₀⟩
        · exact ⟨b, List.mem_cons_of_mem _ hb, hq⟩
      · rintro ⟨b, hb, hq⟩
        rcases List.mem_cons.1 hb with rfl | hb
        · exact Or.inl (Option.some.inj (hq.symm.trans hq₀))
        · exact Or.inr ⟨b, hb, hq⟩

/-- The imports of a module are the packages that it has to import, in ascending order. -/
theorem exists_imports (package : String) (h : Encoded pieces) :
    ∃ qs, imports package pieces = .ok qs ∧ qs.Pairwise (· < ·) ∧
      ∀ q, q ∈ qs ↔ Imported package pieces q := by
  have hencoded : ∀ id ∈ pieces.flatMap (·.dependencies), ∃ q, Identifier.package? id = some q := by
    intro id hid
    rcases List.mem_flatMap.1 hid with ⟨piece, hpiece, hid⟩
    exact h piece hpiece id hid
  rcases mapM_packageOf hencoded with ⟨qs, hqs, hmem⟩
  refine ⟨(Table.ofList ((qs.filter (· ≠ package)).map (·, ()))).keys, ?_, ?_, ?_⟩
  · unfold imports
    rw [hqs]
    rfl
  · exact Table.keys_pairwise _
  · intro q
    -- the packages are filed without values, to sort them and to drop repetitions
    have hkeys : ((qs.filter (· ≠ package)).map (·, ())).map (·.1) = qs.filter (· ≠ package) := by
      rw [List.map_map]
      exact List.map_id _
    rw [Table.mem_keys_ofList, hkeys, List.mem_filter, hmem, decide_eq_true_iff, and_comm]
    refine and_congr_right fun _ => ?_
    constructor
    · rintro ⟨id, hid, hq⟩
      rcases List.mem_flatMap.1 hid with ⟨piece, hpiece, hid⟩
      exact ⟨piece, hpiece, id, hid, hq⟩
    · rintro ⟨piece, hpiece, id, hid, hq⟩
      exact ⟨id, List.mem_flatMap.2 ⟨piece, hpiece, hid⟩, hq⟩

/-! ## Modules -/

/-- The pieces of a package, in their order. -/
def piecesOf (package : String) (pieces : List Piece) : List Piece :=
  pieces.filter (·.package = package)

/-- The source texts of the pieces of a package, in their order. -/
def codesOf (package : String) (pieces : List Piece) : List String :=
  (piecesOf package pieces).map (·.code)

/-- The source text of a module: a line that imports the names of `typing`, a line for each package
that is imported, a gap, and the source texts of definitions, each with a blank line behind it. -/
def layout (imports codes : List String) : String :=
  "from typing import Literal, TypedDict, Union\n" ++
    String.join (imports.map fun q => "from . import " ++ q ++ "\n") ++ "\n\n" ++
    String.join (codes.map fun code => code ++ "\n\n")

theorem text_eq_layout (imports : List String) (package : String) (pieces : List Piece) :
    text imports (piecesOf package pieces) = layout imports (codesOf package pieces) := by
  unfold text layout codesOf
  rw [List.map_map]
  rfl

/-- The source text is that of the module of a package. -/
def IsModule (pieces : List Piece) (package text : String) : Prop :=
  ∃ qs, text = layout qs (codesOf package pieces) ∧ qs.Pairwise (· < ·) ∧
    ∀ q, q ∈ qs ↔ Imported package (piecesOf package pieces) q

/-- Modules are those of pieces: one for each package that has a piece. -/
structure ComposedOf (pieces : List Piece) (ms : Modules) : Prop where
  contains_iff : ∀ p, ms.contains p = true ↔ ∃ piece ∈ pieces, piece.package = p
  isModule : ∀ p text, ms.get? p = some text → IsModule pieces p text

theorem mem_packages : p ∈ packages pieces ↔ ∃ piece ∈ pieces, piece.package = p := by
  unfold packages
  rw [Table.mem_keys_ofList, List.map_map, List.mem_map]
  rfl

theorem Encoded.piecesOf (h : Encoded pieces) (package : String) :
    Encoded (piecesOf package pieces) :=
  fun piece hpiece => h piece (List.mem_filter.1 hpiece).1

theorem result_composeFrom_cons {done : Modules} {rest : List String} :
    (composeFrom pieces done (package :: rest)).result =
      imports package (piecesOf package pieces) >>= fun qs =>
        (composeFrom pieces (done.insert package (text qs (piecesOf package pieces)))
          rest).result := by
  rw [composeFrom, Run.result_bind, Run.result_ofExcept]
  refine congrArg _ (funext fun qs => ?_)
  rw [Run.result_report_bind]
  rfl

/-- Composing the modules of some packages leaves those of others alone. What is composed twice
comes out the same, so the list of packages may repeat itself. -/
theorem composeFrom_spec (h : Encoded pieces) (ps : List String) (done : Modules) :
    ∃ ms, (composeFrom pieces done ps).result = .ok ms ∧
      (∀ p, p ∉ ps → ms.get? p = done.get? p) ∧
      ∀ p ∈ ps, ∃ text, ms.get? p = some text ∧ IsModule pieces p text := by
  induction ps generalizing done with
  | nil => exact ⟨done, rfl, fun _ _ => rfl, by simp⟩
  | cons package rest ih =>
    rcases exists_imports package (h.piecesOf package) with ⟨qs, hqs, hascending, hmem⟩
    rcases ih (done.insert package (text qs (piecesOf package pieces))) with
      ⟨ms, hms, hothers, hrest⟩
    refine ⟨ms, ?_, ?_, ?_⟩
    · rw [result_composeFrom_cons, hqs]
      exact hms
    · intro p hp
      rw [List.mem_cons, not_or] at hp
      rw [hothers p hp.2, Table.get?_insert_of_ne _ hp.1]
    · intro p hp
      by_cases hlater : p ∈ rest
      · exact hrest p hlater
      · -- nothing after this step writes the module of this package again
        have heq : p = package := (List.mem_cons.1 hp).resolve_right hlater
        subst heq
        refine ⟨text qs (piecesOf p pieces), ?_, qs, text_eq_layout qs p pieces, hascending, hmem⟩
        rw [hothers p hlater, Table.get?_insert_self]

theorem compose_composedOf (h : Encoded pieces) :
    ∃ ms, (compose pieces).result = .ok ms ∧ ComposedOf pieces ms := by
  rcases composeFrom_spec h (packages pieces) ∅ with ⟨ms, hms, hothers, hpackages⟩
  -- outside of the packages of pieces there is what was there at first, which is nothing
  have hnone : ∀ p, p ∉ packages pieces → ms.get? p = none := by
    intro p hp
    rw [hothers p hp, Table.get?_empty]
  refine ⟨ms, hms, ?_, ?_⟩
  · intro p
    rw [Table.contains_eq_true_iff, ← mem_packages]
    constructor
    · rintro ⟨text, htext⟩
      by_cases hp : p ∈ packages pieces
      · exact hp
      · rw [hnone p hp] at htext
        cases htext
    · intro hp
      rcases hpackages p hp with ⟨text, htext, -⟩
      exact ⟨text, htext⟩
  · intro p text htext
    by_cases hp : p ∈ packages pieces
    · rcases hpackages p hp with ⟨text', htext', hmodule⟩
      rw [htext] at htext'
      cases htext'
      exact hmodule
    · rw [hnone p hp] at htext
      cases htext

end Modules

end UmlTyping
