import UmlTyping.Proofs.Resolution

/-!
# Merged resolutions

To resolve roots and then further roots is to resolve each list on its own, and to put what is new of
the second result behind the first. A root that is reachable from earlier ones changes nothing.

What has to be compared is a walk that starts from progress `q` with one that starts from nothing.
The two differ where they come to something that `q` holds: the first passes it over, and the second
walks all the way down. That way down never fails (`WellOrdered.exists_visit`) and adds nothing that
`q` lacks (`Walk.onTop_eq`), so the walks agree in everything else, in their errors and in the cycles
that these report (`Walk.onTop`).
-/

namespace UmlTyping

/-- Progress made on top of other progress, of which nothing is emitted again. -/
def Progress.onTop (q p : Progress) : Progress where
  emitted := p.emitted.filter (· ∉ q.emitted) ++ q.emitted
  ordered := q.ordered ++ p.ordered.filter (·.id ∉ q.emitted)

/-- Definitions, and behind them those of others whose entries are not defined yet. -/
def mergeDefinitions (ds others : List Definition) : List Definition :=
  ds ++ others.filter (·.id ∉ ds.map (·.id))

namespace Progress

variable {q p : Progress} {id : Identifier} {d : Definition}

@[simp] theorem onTop_empty (q : Progress) : q.onTop {} = q := by
  simp [onTop]

theorem mem_emitted_onTop : id ∈ (q.onTop p).emitted ↔ id ∈ p.emitted ∨ id ∈ q.emitted := by
  by_cases hid : id ∈ q.emitted
  · simp [onTop, hid]
  · simp [onTop, hid]

/-- What is emitted below leaves no trace on top. -/
theorem onTop_emit_of_mem (hd : d.id = id) (hid : id ∈ q.emitted) :
    q.onTop (p.emit id d) = q.onTop p := by
  simp [onTop, emit, hd, hid]

theorem onTop_emit_of_not_mem (hd : d.id = id) (hid : id ∉ q.emitted) :
    q.onTop (p.emit id d) = (q.onTop p).emit id d := by
  simp [onTop, emit, hd, hid]

end Progress

namespace Model

variable {m : Model} {chain ids roots : List Identifier} {p q : Progress} {id : Identifier}

/-! ## Walks in sequence -/

theorem result_visitAll_append {rest : List Identifier} :
    (visitAll m chain p (ids ++ rest)).result =
      (visitAll m chain p ids).result >>= fun p' => (visitAll m chain p' rest).result := by
  induction ids generalizing p with
  | nil =>
    have hnil : (visitAll m chain p []).result = .ok p := by
      rw [visitAll, Run.result_pure]
    rw [List.nil_append, hnil]
    rfl
  | cons id ids ih =>
    rw [List.cons_append, result_visitAll_cons, result_visitAll_cons]
    cases (visit m chain p id).result with
    | error err => rfl
    | ok p' => exact ih

/-- Visits that succeed from wherever they start succeed in turn. -/
theorem exists_visitAll
    (h : ∀ id ∈ ids, ∀ p, ∃ p', (visit m chain p id).result = .ok p') (p : Progress) :
    ∃ p', (visitAll m chain p ids).result = .ok p' := by
  induction ids generalizing p with
  | nil => exact ⟨p, by rw [visitAll, Run.result_pure]⟩
  | cons id rest ih =>
    rcases h id List.mem_cons_self p with ⟨p₁, hfirst⟩
    have hlater : ∀ b ∈ rest, ∀ p, ∃ p', (visit m chain p b).result = .ok p' :=
      fun b hb => h b (List.mem_cons_of_mem _ hb)
    rcases ih hlater p₁ with ⟨p₂, hrest⟩
    refine ⟨p₂, ?_⟩
    rw [result_visitAll_cons, hfirst]
    exact hrest

/-! ## Walks on top of progress -/

/-- To visit what is in well-ordered progress succeeds, whatever is emitted already. The induction is
over the way in which that progress came about: an entry depends on earlier ones only, so its
dependencies are visited while nothing of theirs waits. -/
theorem WellOrdered.exists_visit (hq : WellOrdered m q) (hid : id ∈ q.emitted)
    (hwaiting : Waiting chain q) (p : Progress) :
    ∃ p', (visit m chain p id).result = .ok p' := by
  induction hq generalizing chain id p with
  | start => cases hid
  | @emit q new d _ hnew hd hdependencies ih =>
    have hbefore : Waiting chain q :=
      fun b hb hmem => hwaiting b hb (List.mem_cons_of_mem _ hmem)
    rcases List.mem_cons.1 hid with rfl | hid
    · by_cases hemitted : id ∈ p.emitted
      · exact ⟨p, visit_emitted hemitted⟩
      · have hfree : id ∉ chain := fun hchain => hwaiting id hchain List.mem_cons_self
        have hbelow : ∀ b ∈ d.dependencies, ∀ p, ∃ p',
            (visit m (chain ++ [id]) p b).result = .ok p' :=
          fun b hb p => ih (hdependencies b hb) (hbefore.concat hnew) p
        rcases exists_visitAll hbelow p with ⟨p', hp'⟩
        refine ⟨p'.emit id d, ?_⟩
        rw [visit_new hemitted hfree, hd]
        show (visitAll m (chain ++ [id]) p d.dependencies).result >>= _ = _
        rw [hp']
        rfl
    · exact ih hid hbefore p

/-- A walk among what is in progress adds nothing to it. -/
theorem Walk.onTop_eq {result} {p' : Progress} (hm : m.Coherent)
    (hq : m.Closed (· ∈ q.emitted)) (h : Walk m chain p ids result) (hok : result = .ok p')
    (hids : ∀ id ∈ ids, id ∈ q.emitted) : q.onTop p' = q.onTop p := by
  induction h generalizing p' with
  | done =>
    cases hok
    rfl
  | pass _ _ ih =>
    rw [List.forall_mem_cons] at hids
    exact ih hok hids.2
  | cycle => cases hok
  | undefined => cases hok
  | stuck => cases hok
  | @emit _ p id _ d p₁ _ _ _ hd _ _ ihbelow ih =>
    rw [List.forall_mem_cons] at hids
    have hbelow : q.onTop p₁ = q.onTop p := ihbelow rfl (hq.mem_dependencies hids.1 hd)
    rw [ih hok hids.2, Progress.onTop_emit_of_mem (hm.define_id hd) hids.1, hbelow]

/-- A walk comes out on top of progress as it does without it. -/
theorem Walk.onTop {result} (hm : m.Coherent) (hq : WellOrdered m q)
    (h : Walk m chain p ids result) (hwaiting : Waiting chain q) :
    Walk m chain (q.onTop p) ids (q.onTop <$> result) := by
  induction h with
  | done => exact .done
  | pass hid _ ih => exact .pass (Progress.mem_emitted_onTop.2 (Or.inl hid)) (ih hwaiting)
  | @cycle _ _ id _ hnew hwaits =>
    refine .cycle ?_ hwaits
    rw [Progress.mem_emitted_onTop, not_or]
    exact ⟨hnew, hwaiting id hwaits⟩
  | undefined hnew hfree hd =>
    refine .undefined ?_ hfree hd
    rw [Progress.mem_emitted_onTop, not_or]
    refine ⟨hnew, fun hid => ?_⟩
    rcases hq.define_of_mem hid with ⟨d, hdefined⟩
    rw [hd] at hdefined
    cases hdefined
  | @stuck chain p id _ d err hnew hfree hd hbelow ih =>
    by_cases hid : id ∈ q.emitted
    · -- what is in progress was visited once, so a visit to it cannot fail
      exfalso
      rcases hq.exists_visit hid hwaiting p with ⟨p', hp'⟩
      rw [visit_new hnew hfree, hd] at hp'
      change (visitAll m (chain ++ [id]) p d.dependencies).result >>= _ = _ at hp'
      rw [hbelow.result_eq] at hp'
      cases hp'
    · have hnew' : id ∉ (q.onTop p).emitted := by
        rw [Progress.mem_emitted_onTop, not_or]
        exact ⟨hnew, hid⟩
      exact .stuck hnew' hfree hd (ih (hwaiting.concat hid))
  | @emit chain p id _ d p₁ _ hnew hfree hd hbelow _ ihbelow ih =>
    by_cases hid : id ∈ q.emitted
    · -- the walk from nothing goes down, and all that it finds below is in progress
      have hsame : q.onTop (p₁.emit id d) = q.onTop p := by
        rw [Progress.onTop_emit_of_mem (hm.define_id hd) hid]
        exact hbelow.onTop_eq hm hq.closed rfl (hq.closed.mem_dependencies hid hd)
      rw [hsame] at ih
      exact .pass (Progress.mem_emitted_onTop.2 (Or.inr hid)) (ih hwaiting)
    · have hnew' : id ∉ (q.onTop p).emitted := by
        rw [Progress.mem_emitted_onTop, not_or]
        exact ⟨hnew, hid⟩
      rw [Progress.onTop_emit_of_not_mem (hm.define_id hd) hid] at ih
      exact .emit hnew' hfree hd (ihbelow (hwaiting.concat hid)) (ih hwaiting)

/-! ## Resolutions in sequence -/

theorem result_resolve (m : Model) (roots : List Identifier) :
    (m.resolve roots).result = (·.ordered) <$> (visitAll m [] {} roots).result := by
  unfold resolve
  rw [Run.result_bind, result_visitRoots]
  cases (visitAll m [] {} roots).result with
  | error err => rfl
  | ok p => exact Run.result_report_bind (.resolved p.ordered.length) fun _ => pure p.ordered

theorem wellOrdered_of_visitAll (h : (visitAll m [] {} roots).result = .ok q) :
    WellOrdered m q := by
  have hwalk : Walk m [] {} roots (.ok q) := h ▸ walk_visitAll m [] {} roots
  exact hwalk.wellOrdered rfl (waiting_nil _) .start

/-- Roots that are visited on top of progress come out as they do alone. -/
theorem visitAll_onTop (hm : m.Coherent) (hq : WellOrdered m q) :
    (visitAll m [] q roots).result = q.onTop <$> (visitAll m [] {} roots).result := by
  have hwalk : Walk m [] (q.onTop {}) roots (q.onTop <$> (visitAll m [] {} roots).result) :=
    (walk_visitAll m [] {} roots).onTop hm hq (waiting_nil q)
  rw [Progress.onTop_empty] at hwalk
  exact hwalk.result_eq

theorem WellOrdered.ordered_onTop (hm : m.Coherent) (hq : WellOrdered m q) :
    (q.onTop p).ordered = mergeDefinitions q.ordered p.ordered := by
  have hkept : p.ordered.filter (·.id ∉ q.emitted) =
      p.ordered.filter (·.id ∉ q.ordered.map (·.id)) := by
    refine List.filter_congr fun d _ => ?_
    rw [decide_eq_decide, hq.mem_map_id hm]
  unfold mergeDefinitions
  rw [← hkept]
  rfl

/-- To resolve roots and further roots is to resolve either and to merge the results. A root changes
nothing if roots before it lead to it. -/
theorem resolve_append (hm : m.IsLoaded) (r₁ r₂ : List Identifier) :
    (m.resolve (r₁ ++ r₂)).result = (do
      let ds ← (m.resolve r₁).result
      let others ← (m.resolve r₂).result
      pure (mergeDefinitions ds others)) ∧
    ∀ id, m.Reachable r₁ id →
      (m.resolve (r₁ ++ id :: r₂)).result = (m.resolve (r₁ ++ r₂)).result := by
  have hcoherent : m.Coherent := hm.coherent
  constructor
  · rw [result_resolve, result_resolve, result_resolve, result_visitAll_append]
    cases h₁ : (visitAll m [] {} r₁).result with
    | error err => rfl
    | ok q =>
      have hq : WellOrdered m q := wellOrdered_of_visitAll h₁
      show (·.ordered) <$> (visitAll m [] q r₂).result = _
      rw [visitAll_onTop hcoherent hq]
      cases (visitAll m [] {} r₂).result with
      | error err => rfl
      | ok p => exact congrArg Except.ok (hq.ordered_onTop hcoherent)
  · intro id hid
    rw [result_resolve, result_resolve, result_visitAll_append, result_visitAll_append]
    cases h₁ : (visitAll m [] {} r₁).result with
    | error err => rfl
    | ok q =>
      have hq : WellOrdered m q := wellOrdered_of_visitAll h₁
      have hwalk : Walk m [] {} r₁ (.ok q) := h₁ ▸ walk_visitAll m [] {} r₁
      have hemitted : id ∈ q.emitted := hid.mem_of_closed hq.closed (hwalk.ids_subset rfl)
      show (·.ordered) <$> (visitAll m [] q (id :: r₂)).result =
        (·.ordered) <$> (visitAll m [] q r₂).result
      rw [result_visitAll_cons, visit_emitted hemitted]
      rfl

theorem sample_resolve_append : ∃ ds, (sample.resolve ["ID_flight.Node"]).result = .ok ds ∧
    ds.map (·.id) = ["ID_common.Text", "ID_common.Named", "ID_flight.Node"] ∧
    (sample.resolve ["ID_flight.Node", "ID_common.Text"]).result = .ok ds ∧
    (sample.resolve ["ID_flight.Node", "ID_common.Ping"]).result =
      .error (.cyclicDependency ["ID_common.Ping", "ID_common.Pong", "ID_common.Ping"]) := by
  rcases sample_resolve_node with ⟨ds, hds, hids⟩
  have hreachable : sample.Reachable ["ID_flight.Node"] "ID_common.Text" := by
    rw [← (ordersClosure_of_resolve sample_isLoaded.coherent hds).mem_iff, hids]
    simp
  refine ⟨ds, hds, hids, ?_, ?_⟩
  · have hsame := (resolve_append sample_isLoaded ["ID_flight.Node"] []).2 _ hreachable
    exact hsame.trans hds
  · have hmerged := (resolve_append sample_isLoaded ["ID_flight.Node"] ["ID_common.Ping"]).1
    rw [hds, sample_resolve_ping] at hmerged
    exact hmerged

end Model

end UmlTyping
