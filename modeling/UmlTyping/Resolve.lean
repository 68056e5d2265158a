import UmlTyping.Definition.Compile

/-!
# Ordering definitions

`Model.resolve` compiles the entries that some roots need and puts every definition behind those it
depends on. It walks the dependencies of each root depth first. The chain of entries that wait for
the present one is an argument of the walk: an entry that is met again on it closes a cycle. An entry
that is emitted already is passed over, and any other is compiled before its dependencies are
visited, so its own errors come first.

The walk ends because every step down adds an identifier of the model to the chain, on which none
occurs twice: `Model.remaining` counts those that are not on it.
-/

namespace UmlTyping

/-- What a walk has brought about so far. -/
structure Progress where
  /-- The identifiers of the entries that are emitted. -/
  emitted : List Identifier := []
  /-- The definitions in their order. -/
  ordered : List Definition := []
deriving DecidableEq

/-- Puts a definition behind all others. -/
def Progress.emit (p : Progress) (id : Identifier) (d : Definition) : Progress where
  emitted := id :: p.emitted
  ordered := p.ordered ++ [d]

namespace Model

/-- The number of identifiers of the model that are not on a chain. -/
def remaining (m : Model) (chain : List Identifier) : Nat :=
  (m.ids.filter (· ∉ chain)).length

theorem remaining_append_lt {m : Model} {chain : List Identifier} {id : Identifier}
    (hmem : id ∈ m.ids) (hnew : id ∉ chain) : m.remaining (chain ++ [id]) < m.remaining chain := by
  have hsplit : m.ids.filter (· ∉ chain ++ [id])
      = (m.ids.filter (· ∉ chain)).filter (· ≠ id) := by
    rw [List.filter_filter]
    refine List.filter_congr fun x _ => ?_
    by_cases hx : x ∈ chain <;> simp [hx]
  rw [remaining, remaining, hsplit]
  refine List.length_filter_lt_length_iff_exists.2 ⟨id, ?_, by simp⟩
  exact List.mem_filter.2 ⟨hmem, by simpa using hnew⟩

mutual

/-- Emits the entry `id` behind its dependencies, while the entries of `chain` wait for it. -/
def visit (m : Model) (chain : List Identifier) (p : Progress) (id : Identifier) :
    Run DefinitionError Progress :=
  if id ∈ p.emitted then do
    Run.report (.alreadyEmitted id)
    pure p
  else if _hchain : id ∈ chain then
    throw (.cyclicDependency (chain.dropWhile (· ≠ id) ++ [id]))
  else
    match _hfind : m.find? id with
    | none => throw (.unresolvedReference id)
    | some entry => do
      let d ← entry.compile m
      let p ← visitAll m (chain ++ [id]) p d.dependencies
      Run.report (.emitting id)
      pure (p.emit id d)
termination_by (m.remaining chain, 0)
decreasing_by
  exact Prod.Lex.left _ _ (remaining_append_lt (mem_ids_of_find?_eq_some _hfind) _hchain)

/-- Emits entries in turn, while the entries of `chain` wait for them. -/
def visitAll (m : Model) (chain : List Identifier) (p : Progress) :
    List Identifier → Run DefinitionError Progress
  | [] => pure p
  | id :: rest => do
    let p ← visit m chain p id
    visitAll m chain p rest
termination_by ids => (m.remaining chain, ids.length + 1)
decreasing_by
  · exact Prod.Lex.right _ (by simp)
  · exact Prod.Lex.right _ (by simp)

end

/-- Visits roots in turn. -/
def visitRoots (m : Model) (p : Progress) : List Identifier → Run DefinitionError Progress
  | [] => pure p
  | root :: rest => do
    Run.report (.resolvingRoot root)
    let p ← visit m [] p root
    visitRoots m p rest

/-- The definitions of the entries that the roots need, each behind its dependencies. -/
def resolve (m : Model) (roots : List Identifier) : Run DefinitionError (List Definition) := do
  let p ← visitRoots m {} roots
  Run.report (.resolved p.ordered.length)
  pure p.ordered

end Model

end UmlTyping
