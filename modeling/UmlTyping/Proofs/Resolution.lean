import UmlTyping.Proofs.Walk

/-!
# Resolutions

What `Model.resolve` gives, in terms of the dependencies alone.

* If it succeeds, its definitions are those of the reachable identifiers, each once and behind what
  it depends on.
* It succeeds exactly if all that is reachable has a definition and nothing in it depends on itself
  by way of others. If it fails, its error is about something reachable.
* A path that it reports as a cycle is one.

The first is an induction over the way in which progress comes about (`WellOrdered`). The others add
what is known of walks that fail.
-/

namespace UmlTyping.Model

variable {m : Model} {roots : List Identifier} {p : Progress} {ds : List Definition}
  {a b id : Identifier}

/-! ## Order -/

namespace WellOrdered

theorem nodup_emitted (h : WellOrdered m p) : p.emitted.Nodup := by
  induction h with
  | start => exact List.nodup_nil
  | emit _ hnew _ _ ih => exact List.nodup_cons.2 ⟨hnew, ih⟩

theorem define_of_mem (h : WellOrdered m p) (ha : a ∈ p.emitted) : ∃ d, m.define a = .ok d := by
  induction h with
  | start => cases ha
  | @emit p id d _ _ hd _ ih =>
    rcases List.mem_cons.1 ha with rfl | ha
    · exact ⟨d, hd⟩
    · exact ih ha

/-- What an emitted entry needs is emitted. -/
theorem closed (h : WellOrdered m p) : m.Closed (· ∈ p.emitted) := by
  induction h with
  | start =>
    intro a b ha
    cases ha
  | @emit p id d _ _ hd hdependencies ih =>
    intro a b ha hab
    apply List.mem_cons_of_mem
    rcases List.mem_cons.1 ha with rfl | ha
    · exact hdependencies b ((needs_iff hd).1 hab)
    · exact ih a b ha hab

/-- No emitted entry needs itself. -/
theorem acyclic (h : WellOrdered m p) (ha : a ∈ p.emitted) :
    ¬ Relation.TransGen m.Needs a a := by
  induction h with
  | start => cases ha
  | @emit p id d hp hnew hd hdependencies ih =>
    rcases List.mem_cons.1 ha with rfl | ha
    · -- a way back from the new entry would start among those that were there before, which are
      -- closed, so the entry would not be new
      intro hloop
      apply hnew
      rcases Relation.TransGen.head'_iff.1 hloop with ⟨b, hab, hba⟩
      have hb : b ∈ p.emitted := hdependencies b ((needs_iff hd).1 hab)
      rcases Relation.reflTransGen_iff_eq_or_transGen.1 hba with heq | hba
      · rw [heq]
        exact hb
      · exact hp.closed.of_transGen hb hba
    · exact ih ha

/-- Definitions stand in the order in which their entries are emitted. -/
theorem map_id (hm : m.Coherent) (h : WellOrdered m p) :
    p.ordered.map (·.id) = p.emitted.reverse := by
  induction h with
  | start => rfl
  | @emit p id d _ _ hd _ ih =>
    show (p.ordered ++ [d]).map (·.id) = (id :: p.emitted).reverse
    rw [List.map_append, ih, List.reverse_cons, List.map_singleton, hm.define_id hd]

theorem mem_map_id (hm : m.Coherent) (h : WellOrdered m p) :
    id ∈ p.ordered.map (·.id) ↔ id ∈ p.emitted := by
  rw [h.map_id hm, List.mem_reverse]

theorem define_eq (hm : m.Coherent) (h : WellOrdered m p) :
    ∀ d ∈ p.ordered, m.define d.id = .ok d := by
  induction h with
  | start => simp
  | @emit p id d _ _ hd _ ih =>
    intro d' hd'
    rcases List.mem_append.1 hd' with hd' | hd'
    · exact ih d' hd'
    · rw [List.mem_singleton.1 hd', hm.define_id hd]
      exact hd

/-- Each definition stands behind those that it depends on. -/
theorem dependency_before (hm : m.Coherent) (h : WellOrdered m p) :
    ∀ (i : Nat) (d : Definition), p.ordered[i]? = some d → ∀ b ∈ d.dependencies,
      ∃ (j : Nat) (d' : Definition), j < i ∧ p.ordered[j]? = some d' ∧ d'.id = b := by
  induction h with
  | start => simp
  | @emit p id d hp _ _ hdependencies ih =>
    intro i d' hi b hb
    change (p.ordered ++ [d])[i]? = some d' at hi
    show ∃ (j : Nat) (c : Definition), j < i ∧ (p.ordered ++ [d])[j]? = some c ∧ c.id = b
    rw [List.getElem?_append] at hi
    split at hi
    · rcases ih i d' hi b hb with ⟨j, c, hji, hj, hc⟩
      refine ⟨j, c, hji, ?_, hc⟩
      rw [List.getElem?_append_left (by omega)]
      exact hj
    next hlast =>
      -- the definition is the new one, so what it depends on is somewhere among the others
      have heq : d = d' := List.mem_singleton.1 (List.mem_of_getElem? hi) |>.symm
      have hmem : b ∈ p.ordered.map (·.id) := (hp.mem_map_id hm).2 (hdependencies b (heq ▸ hb))
      rcases List.mem_map.1 hmem with ⟨c, hc, hcb⟩
      rcases List.getElem?_of_mem hc with ⟨j, hj⟩
      have hjlt : j < p.ordered.length := (List.getElem?_eq_some_iff.1 hj).1
      refine ⟨j, c, by omega, ?_, hcb⟩
      rw [List.getElem?_append_left hjlt]
      exact hj

end WellOrdered

/-- What is emitted when a resolution succeeds is what the roots lead to. -/
theorem wellOrdered_of_resolve (h : (m.resolve roots).result = .ok ds) :
    ∃ p, WellOrdered m p ∧ p.ordered = ds ∧ ∀ id, id ∈ p.emitted ↔ m.Reachable roots id := by
  rcases resolve_eq_ok_iff.1 h with ⟨p, hp, hds⟩
  have hwalk : Walk m [] {} roots (.ok p) := hp ▸ walk_visitRoots m {} roots
  have hordered : WellOrdered m p := hwalk.wellOrdered rfl (waiting_nil _) .start
  refine ⟨p, hordered, hds, ?_⟩
  intro id
  constructor
  · have hroots : ∀ id ∈ roots, m.Reachable roots id := fun _ hid => .root hid
    exact hwalk.emitted_of_closed (closed_reachable m roots) rfl hroots (by simp) id
  · intro hid
    exact hid.mem_of_closed hordered.closed (hwalk.ids_subset rfl)

/-- The definitions are those of all that the roots lead to, each behind what it depends on. -/
structure OrdersClosure (m : Model) (roots : List Identifier) (ds : List Definition) : Prop where
  /-- Nothing is missing, and nothing is there that is not needed. -/
  mem_iff : ∀ id, id ∈ ds.map (·.id) ↔ m.Reachable roots id
  /-- No entry is defined twice. -/
  nodup : (ds.map (·.id)).Nodup
  /-- What a definition depends on stands before it. -/
  dependency_before : ∀ (i : Nat) (d : Definition), ds[i]? = some d → ∀ b ∈ d.dependencies,
    ∃ (j : Nat) (d' : Definition), j < i ∧ ds[j]? = some d' ∧ d'.id = b
  /-- A definition is what its entry compiles to. -/
  compiled : ∀ d ∈ ds, ∃ e, m.find? d.id = some e ∧ (e.compile m).result = .ok d

theorem ordersClosure_of_resolve (hm : m.Coherent) (h : (m.resolve roots).result = .ok ds) :
    OrdersClosure m roots ds := by
  rcases wellOrdered_of_resolve h with ⟨p, hp, hds, hreachable⟩
  subst hds
  refine ⟨?_, ?_, hp.dependency_before hm, ?_⟩
  · intro id
    rw [hp.mem_map_id hm, hreachable]
  · rw [hp.map_id hm, List.nodup_reverse]
    exact hp.nodup_emitted
  · intro d hd
    exact define_eq_ok_iff.1 (hp.define_eq hm d hd)

/-- The definitions that a resolution of a loaded model gives are those of the closure of its roots,
in order. -/
theorem resolve_ordersClosure (hm : m.IsLoaded) (h : (m.resolve roots).result = .ok ds) :
    OrdersClosure m roots ds :=
  ordersClosure_of_resolve hm.coherent h

theorem sample_ordersClosure : ∃ ds, (sample.resolve ["ID_flight.Node"]).result = .ok ds ∧
    ds.map (·.id) = ["ID_common.Text", "ID_common.Named", "ID_flight.Node"] ∧
    OrdersClosure sample ["ID_flight.Node"] ds := by
  rcases sample_resolve_node with ⟨ds, hds, hids⟩
  exact ⟨ds, hds, hids, resolve_ordersClosure sample_isLoaded hds⟩

/-! ## Success and failure -/

/-- What a failed resolution has come upon. -/
theorem error_of_resolve {err : DefinitionError} (h : (m.resolve roots).result = .error err) :
    (∃ id, m.Reachable roots id ∧ m.define id = .error err) ∨
      ∃ path, err = .cyclicDependency path ∧ IsLoop path ∧ path.IsChain m.Needs ∧
        ∀ id ∈ path, m.Reachable roots id := by
  have hwalk : Walk m [] {} roots (.error err) :=
    resolve_eq_error_iff.1 h ▸ walk_visitRoots m {} roots
  have hroots : ∀ id ∈ roots, m.Reachable roots id := fun _ hid => .root hid
  exact hwalk.error (closed_reachable m roots) rfl (.nil hroots)

/-- Only a root can be reachable without an entry: what is depended on is always found. -/
theorem Reachable.mem_roots_of_find?_eq_none (h : m.Reachable roots id) (hid : m.find? id = none) :
    id ∈ roots := by
  cases h with
  | root hroot => exact hroot
  | step _ hneeds =>
    rcases hneeds.mentions.2 with ⟨e, he⟩
    rw [hid] at he
    cases he

/-- What an error says of that part of a model that the roots lead to. -/
def Justified (m : Model) (roots : List Identifier) (err : DefinitionError) : Prop :=
  match err with
  | .unresolvedReference id =>
    m.find? id = none ∧ (id ∈ roots ∨
      ∃ a e, m.Reachable roots a ∧ m.find? a = some e ∧ e.Mentions id)
  | .cyclicDependency _ =>
    (∃ a, m.Reachable roots a ∧ Relation.TransGen m.Needs a a) ∨
      ∃ a e, m.Reachable roots a ∧ m.find? a = some e ∧ Kind.ofTag? e.tag = some .record ∧
        e.generalization = some e.id
  | err => ∃ a e, m.Reachable roots a ∧ m.find? a = some e ∧ (e.compile m).result = .error err

/-- An entry that is reachable and does not compile justifies the error. -/
theorem justified_of_compile {e : Entry} {err : DefinitionError} (ha : m.Reachable roots a)
    (he : m.find? a = some e) (h : (e.compile m).result = .error err) : m.Justified roots err := by
  cases err with
  | unresolvedReference id =>
    have hfailed := Entry.compile_eq_unresolvedReference h
    exact ⟨hfailed.1, Or.inr ⟨a, e, ha, he, hfailed.2⟩⟩
  | cyclicDependency path =>
    have hfailed := Entry.compile_eq_cyclicDependency h
    exact Or.inr ⟨a, e, ha, he, hfailed.2⟩
  | model fault => exact ⟨a, e, ha, he, h⟩
  | unsupportedKind tag => exact ⟨a, e, ha, he, h⟩
  | unexpectedArity lower upper => exact ⟨a, e, ha, he, h⟩

theorem justified_of_resolve {err : DefinitionError} (h : (m.resolve roots).result = .error err) :
    m.Justified roots err := by
  rcases error_of_resolve h with ⟨id, hid, hfails⟩ | ⟨path, rfl, hloop, hpath, hreachable⟩
  · rcases define_eq_error_iff.1 hfails with ⟨hnone, rfl⟩ | ⟨e, he, hcompile⟩
    · exact ⟨hnone, Or.inl (hid.mem_roots_of_find?_eq_none hnone)⟩
    · exact justified_of_compile hid he hcompile
  · rcases hloop.exists_transGen hpath with ⟨a, ha, hloops⟩
    exact Or.inl ⟨a, hreachable a ha, hloops⟩

/-- All that the roots lead to can be defined, and nothing of it needs itself. -/
def Definable (m : Model) (roots : List Identifier) : Prop :=
  (∀ id, m.Reachable roots id → ∃ e d, m.find? id = some e ∧ (e.compile m).result = .ok d) ∧
    ∀ id, m.Reachable roots id → ¬ Relation.TransGen m.Needs id id

theorem definable_of_resolve (h : (m.resolve roots).result = .ok ds) : m.Definable roots := by
  rcases wellOrdered_of_resolve h with ⟨p, hp, -, hreachable⟩
  constructor
  · intro id hid
    rcases hp.define_of_mem ((hreachable id).2 hid) with ⟨d, hd⟩
    rcases define_eq_ok_iff.1 hd with ⟨e, he, hcompile⟩
    exact ⟨e, d, he, hcompile⟩
  · intro id hid
    exact hp.acyclic ((hreachable id).2 hid)

theorem not_definable_of_resolve {err : DefinitionError}
    (h : (m.resolve roots).result = .error err) : ¬ m.Definable roots := by
  rintro ⟨hcompiles, hacyclic⟩
  rcases error_of_resolve h with ⟨id, hid, hfails⟩ | ⟨path, -, hloop, hpath, hreachable⟩
  · rcases hcompiles id hid with ⟨e, d, he, hd⟩
    have hdefined : m.define id = .ok d := define_eq_ok_iff.2 ⟨e, he, hd⟩
    rw [hfails] at hdefined
    cases hdefined
  · rcases hloop.exists_transGen hpath with ⟨a, ha, hloops⟩
    exact hacyclic a (hreachable a ha) hloops

/-- A resolution succeeds exactly if all that the roots lead to can be defined, and its error is
else about something that they lead to. -/
theorem resolve_succeeds_iff_definable (m : Model) (roots : List Identifier) :
    ((∃ ds, (m.resolve roots).result = .ok ds) ↔ m.Definable roots) ∧
      ∀ err, (m.resolve roots).result = .error err → m.Justified roots err := by
  refine ⟨⟨?_, ?_⟩, fun err h => justified_of_resolve h⟩
  · rintro ⟨ds, h⟩
    exact definable_of_resolve h
  · intro hdefinable
    cases h : (m.resolve roots).result with
    | ok ds => exact ⟨ds, rfl⟩
    | error err => exact absurd hdefinable (not_definable_of_resolve h)

theorem sample_not_definable : ¬ sample.Definable ["ID_common.Ping"] ∧
    sample.Justified ["ID_common.Ping"]
      (.cyclicDependency ["ID_common.Ping", "ID_common.Pong", "ID_common.Ping"]) := by
  rcases resolve_succeeds_iff_definable sample ["ID_common.Ping"] with ⟨hiff, hjustified⟩
  refine ⟨?_, hjustified _ sample_resolve_ping⟩
  intro hdefinable
  rcases hiff.2 hdefinable with ⟨ds, hds⟩
  rw [sample_resolve_ping] at hds
  cases hds

/-! ## Cycles -/

lemma exists_rel_of_mem_tail {r : Identifier → Identifier → Prop} {path : List Identifier}
    (h : path.IsChain r) (hb : b ∈ path.tail) : ∃ a, r a b := by
  induction path with
  | nil => cases hb
  | cons a rest ih =>
    cases rest with
    | nil => cases hb
    | cons c rest =>
      rw [List.isChain_cons_cons] at h
      rcases List.mem_cons.1 hb with rfl | hb
      · exact ⟨a, h.1⟩
      · exact ih h.2 hb

/-- Wherever a loop goes it comes from somewhere. -/
lemma IsLoop.mem_tail {path : List Identifier} (h : IsLoop path) (ha : a ∈ path) :
    a ∈ path.tail := by
  match path, h, ha with
  | [], h, ha => cases ha
  | [_], h, _ => exact absurd h.two_le_length (by simp)
  | c :: d :: rest, h, ha =>
    rcases List.mem_cons.1 ha with rfl | ha
    · apply List.mem_of_getLast?
      have heq := h.head?_eq_getLast?
      rw [List.head?_cons, List.getLast?_cons_cons] at heq
      exact heq.symm
    · exact ha

/-- A path is a cycle of what the roots lead to. -/
structure ReachableCycle (m : Model) (roots path : List Identifier) : Prop where
  /-- It ends where it starts, and meets nothing twice on the way. -/
  isLoop : IsLoop path
  /-- It stays with what the roots lead to. -/
  reachable : ∀ id ∈ path, m.Reachable roots id
  /-- There is an entry at each place of it. -/
  found : ∀ id ∈ path, ∃ e, m.find? id = some e ∧ e.id = id
  /-- It follows dependencies, or it is a record that is its own base. -/
  follows : path.IsChain m.Needs ∨ ∃ a e, path = [a, a] ∧ m.find? a = some e ∧
    Kind.ofTag? e.tag = some .record ∧ e.generalization = some a

/-- A record that is its own base is a cycle. -/
theorem reachableCycle_of_base {e : Entry} (ha : m.Reachable roots a) (he : m.find? a = some e)
    (hid : e.id = a) (hkind : Kind.ofTag? e.tag = some .record)
    (hbase : e.generalization = some a) : ReachableCycle m roots [a, a] where
  isLoop := ⟨by simp, rfl, by simp⟩
  reachable := by simpa using ha
  found := by simpa using ⟨e, he, hid⟩
  follows := Or.inr ⟨a, e, rfl, he, hkind, hbase⟩

/-- What is reported as a cycle is one. -/
theorem resolve_reachableCycle {path : List Identifier} (hm : m.IsLoaded)
    (h : (m.resolve roots).result = .error (.cyclicDependency path)) :
    ReachableCycle m roots path := by
  have hcoherent := hm.coherent
  rcases error_of_resolve h with ⟨a, ha, hfails⟩ | ⟨path', heq, hloop, hpath, hreachable⟩
  · -- the cycle is found in compiling an entry, so it is that of a record which is its own base
    rcases define_eq_error_iff.1 hfails with ⟨-, heq⟩ | ⟨e, he, hcompile⟩
    · cases heq
    · have hid : e.id = a := hcoherent.id_eq he
      rcases Entry.compile_eq_cyclicDependency hcompile with ⟨hcycle, hkind, hbase⟩
      rw [hid] at hcycle hbase
      rw [hcycle]
      exact reachableCycle_of_base ha he hid hkind hbase
  · -- the chain of the walk is closed; each place of the cycle is needed by the one before
    cases heq
    refine ⟨hloop, hreachable, ?_, Or.inl hpath⟩
    intro b hb
    rcases exists_rel_of_mem_tail hpath (hloop.mem_tail hb) with ⟨a, hab⟩
    rcases hab.mentions.2 with ⟨e, he⟩
    exact ⟨e, he, hcoherent.id_eq he⟩

theorem sample_reachableCycle : (sample.resolve ["ID_common.Ping"]).result =
    .error (.cyclicDependency ["ID_common.Ping", "ID_common.Pong", "ID_common.Ping"]) ∧
    ReachableCycle sample ["ID_common.Ping"]
      ["ID_common.Ping", "ID_common.Pong", "ID_common.Ping"] :=
  ⟨sample_resolve_ping, resolve_reachableCycle sample_isLoaded sample_resolve_ping⟩

end UmlTyping.Model
