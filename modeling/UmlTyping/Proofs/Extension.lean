import UmlTyping.Proofs.Importing
import UmlTyping.Proofs.Merging

/-!
# Further roots

To generate for more roots than before is to add to what was generated: every module is there again,
imports at least what it did, and holds the same definitions in the same order in front of any new
ones (`generate_continues`).

It rests on a property of the walk, that it only ever appends (`Walk.ordered_prefix`). A new root
may bring new entries into a package that has a module already, but it comes to them after all that
earlier roots led to.
-/

namespace UmlTyping

namespace Modules

variable {pieces later : List Piece} {package p q : String}

theorem piecesOf_append (pieces later : List Piece) :
    piecesOf p (pieces ++ later) = piecesOf p pieces ++ piecesOf p later :=
  List.filter_append pieces later

/-- More pieces need no fewer imports. -/
theorem Imported.append (h : Imported p pieces q) : Imported p (pieces ++ later) q := by
  obtain ⟨hne, piece, hpiece, id, hid, hq⟩ := h
  exact ⟨hne, piece, List.mem_append_left _ hpiece, id, hid, hq⟩

/-- The module of a package continues another: what that imports it imports as well, and what that
defines it defines first, in the same order. -/
def Continues (p : String) (pieces later : List Piece) (old new : String) : Prop :=
  ∃ qs qs', imports p (piecesOf p pieces) = .ok qs ∧
    imports p (piecesOf p (pieces ++ later)) = .ok qs' ∧ qs ⊆ qs' ∧
    old = layout qs (codesOf p pieces) ∧ new = layout qs' (codesOf p pieces ++ codesOf p later)

/-- Modules of more pieces continue those of fewer. -/
theorem ComposedOf.continues {ms ms' : Modules} {old : String} (hms : ms.ComposedOf pieces)
    (hms' : ms'.ComposedOf (pieces ++ later)) (h : Encoded (pieces ++ later))
    (hold : ms.get? p = some old) :
    ∃ new, ms'.get? p = some new ∧ Continues p pieces later old new := by
  have hfewer : Encoded pieces := fun piece hpiece => h piece (List.mem_append_left _ hpiece)
  -- the package still has a piece, so it still has a module
  have hmodule : ms'.contains p = true := by
    have hcontains : ms.contains p = true := Table.contains_eq_true_iff.2 ⟨old, hold⟩
    obtain ⟨piece, hpiece, hp⟩ := (hms.contains_iff p).1 hcontains
    exact (hms'.contains_iff p).2 ⟨piece, List.mem_append_left _ hpiece, hp⟩
  obtain ⟨new, hnew⟩ := Table.contains_eq_true_iff.1 hmodule
  obtain ⟨qs, hqs, hold, hmem⟩ := hms.exists_text hfewer hold
  obtain ⟨qs', hqs', hnewText, hmem'⟩ := hms'.exists_text h hnew
  have hsubset : qs ⊆ qs' := by
    intro q hq
    have himported : Imported p (piecesOf p pieces) q := (hmem q).1 hq
    rw [hmem', piecesOf_append]
    exact himported.append
  rw [codesOf, piecesOf_append, List.map_append] at hnewText
  exact ⟨new, hnew, qs, qs', hqs, hqs', hsubset, hold, hnewText⟩

end Modules

namespace Model

variable {m : Model} {chain ids roots : List Identifier} {p p' : Progress} {id : Identifier}

/-- To resolve further roots is to append to what earlier ones give. -/
theorem exists_later {r₁ r₂ : List Identifier} {ds ds' : List Definition}
    (h₁ : (m.resolve r₁).result = .ok ds) (h₂ : (m.resolve (r₁ ++ r₂)).result = .ok ds') :
    ∃ later, ds' = ds ++ later := by
  obtain ⟨p, hp, rfl⟩ := resolve_eq_ok_iff.1 h₁
  obtain ⟨p', hp', rfl⟩ := resolve_eq_ok_iff.1 h₂
  rw [result_visitRoots] at hp hp'
  have hrest : (visitAll m [] p r₂).result = .ok p' := by
    rw [result_visitAll_append, hp] at hp'
    exact hp'
  have hwalk : Walk m [] p r₂ (.ok p') := hrest ▸ walk_visitAll m [] p r₂
  obtain ⟨later, hlater⟩ := hwalk.ordered_prefix rfl
  exact ⟨later, hlater.symm⟩

/-! ## Generations -/

/-- Modules for further roots continue those for the first ones. -/
theorem generate_continues (hm : m.IsLoaded) {r₁ r₂ : List Identifier} {ms ms' : Modules}
    (h₁ : (m.generate r₁).result = .ok ms) (h₂ : (m.generate (r₁ ++ r₂)).result = .ok ms') :
    ∃ ds later, (m.resolve r₁).result = .ok ds ∧
      (m.resolve (r₁ ++ r₂)).result = .ok (ds ++ later) ∧
      ∀ p old, ms.get? p = some old → ∃ new, ms'.get? p = some new ∧
        Modules.Continues p (ds.map (·.piece)) (later.map (·.piece)) old new := by
  obtain ⟨ds, hds, -, hms⟩ := composedOf_of_generate hm.coherent h₁
  obtain ⟨ds', hds', hclosure, hms'⟩ := composedOf_of_generate hm.coherent h₂
  obtain ⟨later, rfl⟩ := exists_later hds hds'
  have hencoded : Modules.Encoded ((ds ++ later).map (·.piece)) := encoded_of_ordersClosure hclosure
  rw [List.map_append] at hms' hencoded
  exact ⟨ds, later, hds, hds', fun p old hold => hms.continues hms' hencoded hold⟩

/-- Roots that definable ones lead to are definable. -/
theorem Definable.of_reachable {roots' : List Identifier} (h : m.Definable roots)
    (hroots : ∀ id ∈ roots', m.Reachable roots id) : m.Definable roots' := by
  have hsub : ∀ id, m.Reachable roots' id → m.Reachable roots id :=
    fun _ hid => hid.mem_of_closed (closed_reachable m roots) hroots
  exact ⟨fun id hid => h.1 id (hsub id hid), fun id hid => h.2 id (hsub id hid)⟩

/-- The sample generates for any roots that its record leads to. -/
theorem sample_exists_generate (hroots : ∀ id ∈ roots, id ∈
    ["ID_common.Text", "ID_common.Named", "ID_flight.Node"]) :
    ∃ ms, (sample.generate roots).result = .ok ms := by
  obtain ⟨ds, hds, hids⟩ := sample_resolve_node
  have hreachable : ∀ id ∈ roots, sample.Reachable ["ID_flight.Node"] id := by
    intro id hid
    rw [← (ordersClosure_of_resolve sample_isLoaded.coherent hds).mem_iff, hids]
    exact hroots id hid
  have hdefinable : sample.Definable roots := (definable_of_resolve hds).of_reachable hreachable
  cases hresult : (sample.resolve roots).result with
  | error err => exact absurd hdefinable (not_definable_of_resolve hresult)
  | ok ds' =>
    obtain ⟨ms, hms, -⟩ := exists_generate sample_isLoaded.coherent hresult
    exact ⟨ms, hms⟩

theorem sample_generate_continues : ∃ ms ms' ds later,
    (sample.generate ["ID_common.Text"]).result = .ok ms ∧
    (sample.generate (["ID_common.Text"] ++ ["ID_flight.Node"])).result = .ok ms' ∧
    (sample.resolve ["ID_common.Text"]).result = .ok ds ∧
    (sample.resolve (["ID_common.Text"] ++ ["ID_flight.Node"])).result = .ok (ds ++ later) ∧
    ∀ p old, ms.get? p = some old → ∃ new, ms'.get? p = some new ∧
      Modules.Continues p (ds.map (·.piece)) (later.map (·.piece)) old new := by
  have hfirst : ∃ ms, (sample.generate ["ID_common.Text"]).result = .ok ms :=
    sample_exists_generate (by simp)
  have hboth : ∃ ms, (sample.generate (["ID_common.Text"] ++ ["ID_flight.Node"])).result = .ok ms :=
    sample_exists_generate (by simp)
  obtain ⟨ms, hms⟩ := hfirst
  obtain ⟨ms', hms'⟩ := hboth
  obtain ⟨ds, later, hds, hlater, hcontinues⟩ := generate_continues sample_isLoaded hms hms'
  exact ⟨ms, ms', ds, later, hms, hms', hds, hlater, hcontinues⟩

end Model

end UmlTyping
