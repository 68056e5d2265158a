import Mathlib.Data.List.Chain
import Mathlib.Logic.Relation
import UmlTyping.Proofs.Compilation
import UmlTyping.Proofs.Loading

/-!
# Dependencies

The entries of a model as a graph: `m.Needs a b` says that the definition of `a` depends on `b`, and
`m.Reachable roots` is the least set that holds the roots and all that its members depend on. Only
entries that compile have dependencies. Nothing here knows of an order or of how one is found.
-/

namespace UmlTyping.Model

variable {m : Model} {roots : List Identifier} {a b id : Identifier}

/-- What an identifier is defined as: the entry that is found under it, compiled. -/
def define (m : Model) (id : Identifier) : Except DefinitionError Definition :=
  match m.find? id with
  | none => .error (.unresolvedReference id)
  | some e => (e.compile m).result

/-- The definition of `a` depends on `b`. -/
def Needs (m : Model) (a b : Identifier) : Prop :=
  ∃ d, m.define a = .ok d ∧ b ∈ d.dependencies

/-- The identifiers that the roots lead to along dependencies. -/
inductive Reachable (m : Model) (roots : List Identifier) : Identifier → Prop
  | root {id : Identifier} : id ∈ roots → Reachable m roots id
  | step {a b : Identifier} : Reachable m roots a → m.Needs a b → Reachable m roots b

/-! ## Definitions -/

theorem define_eq_ok_iff {d : Definition} :
    m.define id = .ok d ↔ ∃ e, m.find? id = some e ∧ (e.compile m).result = .ok d := by
  unfold define
  cases m.find? id with
  | none => simp
  | some e => simp

theorem define_eq_error_iff {err : DefinitionError} :
    m.define id = .error err ↔
      m.find? id = none ∧ err = .unresolvedReference id ∨
        ∃ e, m.find? id = some e ∧ (e.compile m).result = .error err := by
  unfold define
  cases m.find? id with
  | none => simp [eq_comm]
  | some e => simp

theorem mem_ids_of_define_eq_ok {d : Definition} (h : m.define id = .ok d) : id ∈ m.ids := by
  rcases define_eq_ok_iff.1 h with ⟨e, he, -⟩
  exact mem_ids_of_find?_eq_some he

theorem Coherent.define_id (hm : m.Coherent) {d : Definition} (h : m.define id = .ok d) :
    d.id = id := by
  rcases define_eq_ok_iff.1 h with ⟨e, he, hd⟩
  exact (Entry.compile_eq_ok hd).id_eq.trans (hm.id_eq he)

/-- Running a definition shows what it depends on. -/
lemma exists_define {dependencies : List Identifier}
    (h : (m.define id).toOption.map (fun d => (d.id, d.dependencies)) = some (id, dependencies)) :
    ∃ d, m.define id = .ok d ∧ d.id = id ∧ d.dependencies = dependencies := by
  rcases exists_of_toOption_map h with ⟨d, hd, heq⟩
  rw [Prod.mk.injEq] at heq
  exact ⟨d, hd, heq⟩

theorem needs_iff {d : Definition} (h : m.define a = .ok d) : m.Needs a b ↔ b ∈ d.dependencies := by
  constructor
  · rintro ⟨d', hd', hb⟩
    cases h.symm.trans hd'
    exact hb
  · intro hb
    exact ⟨d, h, hb⟩

/-- What an entry depends on is found, and is mentioned by the entry. -/
theorem Needs.mentions (h : m.Needs a b) :
    (∃ e, m.find? a = some e ∧ e.Mentions b) ∧ ∃ e, m.find? b = some e := by
  rcases h with ⟨d, hd, hb⟩
  rcases define_eq_ok_iff.1 hd with ⟨e, he, hcompile⟩
  rcases (Entry.compile_eq_ok hcompile).mentions hb with ⟨hmentions, -, r, hr⟩
  rcases TypeRef.resolve_eq_ok_iff.1 hr with ⟨e', _, he', -, -⟩
  exact ⟨⟨e, he, hmentions⟩, e', he'⟩

/-! ## Reachable identifiers -/

/-- A set holds all that its members depend on. -/
def Closed (m : Model) (s : Identifier → Prop) : Prop :=
  ∀ a b, s a → m.Needs a b → s b

theorem closed_reachable (m : Model) (roots : List Identifier) : m.Closed (m.Reachable roots) := by
  intro a b ha hab
  exact .step ha hab

theorem Closed.of_transGen {s : Identifier → Prop} (hs : m.Closed s) (ha : s a)
    (h : Relation.TransGen m.Needs a b) : s b := by
  induction h with
  | single hab => exact hs _ _ ha hab
  | tail _ hbc ih => exact hs _ _ ih hbc

theorem Closed.mem_dependencies {s : Identifier → Prop} (hs : m.Closed s) {d : Definition}
    (hid : s id) (hd : m.define id = .ok d) : ∀ b ∈ d.dependencies, s b := by
  intro b hb
  exact hs id b hid ⟨d, hd, hb⟩

/-- A closed set with the roots in it holds all that is reachable. -/
theorem Reachable.mem_of_closed {s : Identifier → Prop} (hs : m.Closed s)
    (hroots : ∀ id ∈ roots, s id) (h : m.Reachable roots id) : s id := by
  induction h with
  | root hid => exact hroots _ hid
  | step _ hab ih => exact hs _ _ ih hab

/-! ## Cycles -/

/-- A path that ends where it starts and meets nothing twice on the way. -/
structure IsLoop (path : List Identifier) : Prop where
  two_le_length : 2 ≤ path.length
  head?_eq_getLast? : path.head? = path.getLast?
  nodup_dropLast : path.dropLast.Nodup

lemma transGen_of_isChain {r : Identifier → Identifier → Prop} {inner : List Identifier}
    (h : (a :: (inner ++ [b])).IsChain r) : Relation.TransGen r a b := by
  induction inner generalizing a with
  | nil =>
    rw [List.nil_append, List.isChain_cons_cons] at h
    exact .single h.1
  | cons c inner ih =>
    rw [List.cons_append, List.isChain_cons_cons] at h
    exact .head h.1 (ih h.2)

/-- Where a loop follows a relation, the relation leads from some identifier on it back to that. -/
theorem IsLoop.exists_transGen {r : Identifier → Identifier → Prop} {path : List Identifier}
    (h : IsLoop path) (hpath : path.IsChain r) : ∃ a ∈ path, Relation.TransGen r a a := by
  match path, h with
  | [], h => exact absurd h.two_le_length (by simp)
  | [_], h => exact absurd h.two_le_length (by simp)
  | a :: b :: rest, h =>
    -- the last identifier is the first again, so the way through the others leads back to it
    have hlast : (b :: rest).getLast? = some a := by
      have heq := h.head?_eq_getLast?
      rw [List.head?_cons, List.getLast?_cons_cons] at heq
      exact heq.symm
    rcases List.getLast?_eq_some_iff.1 hlast with ⟨inner, hinner⟩
    rw [hinner] at hpath
    exact ⟨a, List.mem_cons_self, transGen_of_isChain hpath⟩

/-- The part of a path from an identifier on, and that identifier again. -/
theorem dropWhile_concat_of_mem {path : List Identifier} (h : id ∈ path) :
    ∃ before rest, path = before ++ id :: rest ∧
      path.dropWhile (· ≠ id) ++ [id] = id :: (rest ++ [id]) := by
  rcases List.eq_append_cons_of_mem h with ⟨before, rest, rfl, hbefore⟩
  refine ⟨before, rest, rfl, ?_⟩
  rw [List.dropWhile_append_of_pos]
  · simp
  · intro x hx
    have hne : x ≠ id := fun heq => hbefore (heq ▸ hx)
    simpa using hne

theorem isLoop_cut {path : List Identifier} (h : id ∈ path) (hnodup : path.Nodup) :
    IsLoop (path.dropWhile (· ≠ id) ++ [id]) := by
  rcases dropWhile_concat_of_mem h with ⟨before, rest, rfl, hcut⟩
  rw [hcut]
  refine ⟨by simp, ?_, ?_⟩
  · rw [← List.cons_append, List.getLast?_concat]
    rfl
  · rw [← List.cons_append, List.dropLast_concat]
    exact hnodup.of_append_right

theorem isChain_cut {r : Identifier → Identifier → Prop} {path : List Identifier} (h : id ∈ path)
    (hpath : (path ++ [id]).IsChain r) : (path.dropWhile (· ≠ id) ++ [id]).IsChain r := by
  rcases dropWhile_concat_of_mem h with ⟨before, rest, rfl, hcut⟩
  rw [hcut]
  rw [List.append_assoc] at hpath
  exact hpath.right_of_append

end UmlTyping.Model
