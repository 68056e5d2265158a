import UmlTyping.Proofs.Dependency
import UmlTyping.Resolve

/-!
# Walks

`Walk` is the walk of the dependencies as a relation: what comes of visiting some identifiers in
turn while the entries of a chain wait. It has one rule for each thing that can happen to the first
of them, so an invariant of the resolution is an induction with six cases. `walk_visitAll` and
`walk_visitRoots` say that every resolution is such a walk.

Two things are read off a walk here.

* If it succeeds, everything it was asked for is emitted, nothing that waits is, and each definition
  stands behind those it depends on (`Walk.wellOrdered`).
* If it fails, some identifier that it came to has no definition, or the chain closed a cycle
  (`Walk.error`).
-/

namespace UmlTyping.Model

/-- Visiting the identifiers in turn while those of the chain wait comes to a result. -/
inductive Walk (m : Model) : List Identifier → Progress → List Identifier →
    Except DefinitionError Progress → Prop
  /-- Nothing is left to visit. -/
  | done {chain p} : Walk m chain p [] (.ok p)
  /-- The identifier is emitted already. -/
  | pass {chain p id rest result} : id ∈ p.emitted → Walk m chain p rest result →
      Walk m chain p (id :: rest) result
  /-- The identifier waits for itself. -/
  | cycle {chain p id rest} : id ∉ p.emitted → id ∈ chain →
      Walk m chain p (id :: rest)
        (.error (.cyclicDependency (chain.dropWhile (· ≠ id) ++ [id])))
  /-- The identifier has no definition. -/
  | undefined {chain p id rest err} : id ∉ p.emitted → id ∉ chain → m.define id = .error err →
      Walk m chain p (id :: rest) (.error err)
  /-- Something that the identifier depends on fails. -/
  | stuck {chain p id rest d err} : id ∉ p.emitted → id ∉ chain → m.define id = .ok d →
      Walk m (chain ++ [id]) p d.dependencies (.error err) →
      Walk m chain p (id :: rest) (.error err)
  /-- The identifier is emitted behind what it depends on. -/
  | emit {chain p id rest d p' result} : id ∉ p.emitted → id ∉ chain → m.define id = .ok d →
      Walk m (chain ++ [id]) p d.dependencies (.ok p') → Walk m chain (p'.emit id d) rest result →
      Walk m chain p (id :: rest) result

/-- How progress comes about: a definition is emitted when all that it depends on is, and once. -/
inductive WellOrdered (m : Model) : Progress → Prop
  | start : WellOrdered m {}
  | emit {p id d} : WellOrdered m p → id ∉ p.emitted → m.define id = .ok d →
      (∀ b ∈ d.dependencies, b ∈ p.emitted) → WellOrdered m (p.emit id d)

variable {m : Model} {chain ids : List Identifier} {p p' : Progress} {id : Identifier}

/-! ## Resolutions are walks -/

theorem visit_emitted (h : id ∈ p.emitted) : (visit m chain p id).result = .ok p := by
  rw [visit, if_pos h, Run.result_report_bind]
  rfl

theorem visit_waiting (h : id ∉ p.emitted) (hchain : id ∈ chain) :
    (visit m chain p id).result =
      .error (.cyclicDependency (chain.dropWhile (· ≠ id) ++ [id])) := by
  rw [visit, if_neg h, dif_pos hchain]
  rfl

theorem visit_new (h : id ∉ p.emitted) (hchain : id ∉ chain) :
    (visit m chain p id).result = m.define id >>= fun d =>
      (visitAll m (chain ++ [id]) p d.dependencies).result >>= fun p' => .ok (p'.emit id d) := by
  rw [visit, if_neg h, dif_neg hchain]
  unfold define
  split
  next hfind =>
    rw [hfind]
    rfl
  next e hfind =>
    rw [hfind, Run.result_bind]
    refine congrArg _ (funext fun d => ?_)
    rw [Run.result_bind]
    refine congrArg _ (funext fun p' => ?_)
    rw [Run.result_report_bind]
    rfl

theorem visit_missing (hnew : id ∉ p.emitted) (hchain : id ∉ chain) (hid : m.find? id = none) :
    visit m chain p id = throw (.unresolvedReference id) := by
  rw [visit, if_neg hnew, dif_neg hchain]
  split
  · rfl
  next e he => cases hid.symm.trans he

/-- What is done for an identifier that is neither emitted nor waiting. -/
theorem visit_found {e : Entry} (hnew : id ∉ p.emitted) (hchain : id ∉ chain)
    (he : m.find? id = some e) :
    visit m chain p id = (do
      let d ← e.compile m
      let p ← visitAll m (chain ++ [id]) p d.dependencies
      Run.report (.emitting id)
      pure (p.emit id d)) := by
  rw [visit, if_neg hnew, dif_neg hchain]
  split
  next hnone => cases hnone.symm.trans he
  next e' he' =>
    cases he'.symm.trans he
    rfl

theorem result_visitAll_cons {rest : List Identifier} :
    (visitAll m chain p (id :: rest)).result =
      (visit m chain p id).result >>= fun p' => (visitAll m chain p' rest).result := by
  rw [visitAll, Run.result_bind]

/-- Visiting identifiers is a walk. A step down makes the chain longer, and any other step makes the
list of what is left shorter. -/
theorem walk_visitAll (m : Model) (chain : List Identifier) (p : Progress) (ids : List Identifier) :
    Walk m chain p ids (visitAll m chain p ids).result := by
  match ids with
  | [] =>
    rw [visitAll]
    exact .done
  | id :: rest =>
    rw [result_visitAll_cons]
    by_cases hemitted : id ∈ p.emitted
    · rw [visit_emitted hemitted]
      exact .pass hemitted (walk_visitAll m chain p rest)
    by_cases hchain : id ∈ chain
    · rw [visit_waiting hemitted hchain]
      exact .cycle hemitted hchain
    rw [visit_new hemitted hchain]
    cases hd : m.define id with
    | error err => exact .undefined hemitted hchain hd
    | ok d =>
      -- one more identifier of the model is on the chain, so fewer remain
      have hlt : m.remaining (chain ++ [id]) < m.remaining chain :=
        remaining_append_lt (mem_ids_of_define_eq_ok hd) hchain
      have hdependencies := walk_visitAll m (chain ++ [id]) p d.dependencies
      show Walk m chain p (id :: rest) ((visitAll m (chain ++ [id]) p d.dependencies).result >>=
        (fun p' => .ok (p'.emit id d)) >>= _)
      cases hresult : (visitAll m (chain ++ [id]) p d.dependencies).result with
      | error err =>
        rw [hresult] at hdependencies
        exact .stuck hemitted hchain hd hdependencies
      | ok p' =>
        rw [hresult] at hdependencies
        exact .emit hemitted hchain hd hdependencies (walk_visitAll m chain (p'.emit id d) rest)
termination_by (m.remaining chain, ids.length)

/-- A single visit is a walk as well. -/
theorem walk_visit (m : Model) (chain : List Identifier) (p : Progress) (id : Identifier) :
    Walk m chain p [id] (visit m chain p id).result := by
  have hwalk : Walk m chain p [id] (visitAll m chain p [id]).result := walk_visitAll m chain p [id]
  rw [result_visitAll_cons] at hwalk
  cases hvisit : (visit m chain p id).result with
  | error err =>
    rw [hvisit] at hwalk
    exact hwalk
  | ok p' =>
    rw [hvisit] at hwalk
    change Walk m chain p [id] (visitAll m chain p' []).result at hwalk
    rw [visitAll] at hwalk
    exact hwalk

/-- A walk has one result, which is that of visiting. -/
theorem Walk.result_eq {result} (h : Walk m chain p ids result) :
    (visitAll m chain p ids).result = result := by
  induction h with
  | done => rw [visitAll, Run.result_pure]
  | pass hid _ ih =>
    rw [result_visitAll_cons, visit_emitted hid]
    exact ih
  | cycle hnew hwaits =>
    rw [result_visitAll_cons, visit_waiting hnew hwaits]
    rfl
  | undefined hnew hfree hd =>
    rw [result_visitAll_cons, visit_new hnew hfree, hd]
    rfl
  | stuck hnew hfree hd _ ih =>
    rw [result_visitAll_cons, visit_new hnew hfree, hd]
    show ((visitAll m _ _ _).result >>= _) >>= _ = _
    rw [ih]
    rfl
  | emit hnew hfree hd _ _ ihbelow ih =>
    rw [result_visitAll_cons, visit_new hnew hfree, hd]
    show ((visitAll m _ _ _).result >>= _) >>= _ = _
    rw [ihbelow]
    exact ih

/-- Roots are visited as dependencies are, with nothing waiting. -/
theorem result_visitRoots (m : Model) (p : Progress) (roots : List Identifier) :
    (visitRoots m p roots).result = (visitAll m [] p roots).result := by
  induction roots generalizing p with
  | nil =>
    rw [visitRoots, visitAll]
  | cons root rest ih =>
    rw [visitRoots, Run.result_report_bind, Run.result_bind, result_visitAll_cons]
    refine congrArg _ (funext fun p' => ?_)
    exact ih p'

theorem walk_visitRoots (m : Model) (p : Progress) (roots : List Identifier) :
    Walk m [] p roots (visitRoots m p roots).result := by
  rw [result_visitRoots]
  exact walk_visitAll m [] p roots

theorem resolve_eq_ok_iff {roots : List Identifier} {ds : List Definition} :
    (m.resolve roots).result = .ok ds ↔
      ∃ p, (visitRoots m {} roots).result = .ok p ∧ p.ordered = ds := by
  unfold resolve
  rw [Run.result_bind_eq_ok_iff]
  refine exists_congr fun p => and_congr_right fun _ => ?_
  rw [Run.result_report_bind, Run.result_pure, Except.ok.injEq]

theorem resolve_eq_error_iff {roots : List Identifier} {err : DefinitionError} :
    (m.resolve roots).result = .error err ↔ (visitRoots m {} roots).result = .error err := by
  unfold resolve
  rw [Run.result_bind_eq_error_iff]
  constructor
  · rintro (h | ⟨p, -, h⟩)
    · exact h
    · rw [Run.result_report_bind] at h
      cases h
  · exact Or.inl

/-- A walk through the roots that succeeds says what the resolution gives. -/
theorem Walk.resolve_eq_ok {roots : List Identifier} (h : Walk m [] {} roots (.ok p)) :
    (m.resolve roots).result = .ok p.ordered := by
  refine resolve_eq_ok_iff.2 ⟨p, ?_, rfl⟩
  rw [result_visitRoots]
  exact h.result_eq

theorem Walk.resolve_eq_error {roots : List Identifier} {err : DefinitionError}
    (h : Walk m [] {} roots (.error err)) : (m.resolve roots).result = .error err := by
  rw [resolve_eq_error_iff, result_visitRoots]
  exact h.result_eq

/-! ## Walks that succeed -/

theorem Walk.emitted_subset {result} (h : Walk m chain p ids result) (hok : result = .ok p') :
    ∀ id ∈ p.emitted, id ∈ p'.emitted := by
  induction h generalizing p' with
  | done =>
    cases hok
    intro id hid
    exact hid
  | pass _ _ ih => exact ih hok
  | cycle => cases hok
  | undefined => cases hok
  | stuck => cases hok
  | @emit _ _ new _ d p₁ _ _ _ _ _ _ ihbelow ih =>
    intro id hid
    have hbelow : id ∈ p₁.emitted := ihbelow rfl id hid
    have hemitted : id ∈ (p₁.emit new d).emitted := List.mem_cons_of_mem _ hbelow
    exact ih hok id hemitted

/-- A walk puts new definitions behind those that are there. -/
theorem Walk.ordered_prefix {result} (h : Walk m chain p ids result) (hok : result = .ok p') :
    p.ordered <+: p'.ordered := by
  induction h generalizing p' with
  | done =>
    cases hok
    exact List.prefix_rfl
  | pass _ _ ih => exact ih hok
  | cycle => cases hok
  | undefined => cases hok
  | stuck => cases hok
  | @emit _ p id _ d p₁ _ _ _ _ _ _ ihbelow ih =>
    -- first what the entry depends on, then the entry, then the rest
    have hbelow : p.ordered <+: p₁.ordered := ihbelow rfl
    have hemit : p₁.ordered <+: (p₁.emit id d).ordered := List.prefix_append _ _
    exact (hbelow.trans hemit).trans (ih hok)

/-- Everything that is asked for is emitted in the end. -/
theorem Walk.ids_subset {result} (h : Walk m chain p ids result) (hok : result = .ok p') :
    ∀ id ∈ ids, id ∈ p'.emitted := by
  induction h generalizing p' with
  | done => simp
  | pass hid hrest ih =>
    intro b hb
    rcases List.mem_cons.1 hb with rfl | hb
    · exact hrest.emitted_subset hok b hid
    · exact ih hok b hb
  | cycle => cases hok
  | undefined => cases hok
  | stuck => cases hok
  | emit _ _ _ _ hrest _ ih =>
    intro b hb
    rcases List.mem_cons.1 hb with rfl | hb
    · exact hrest.emitted_subset hok b List.mem_cons_self
    · exact ih hok b hb

/-- Nothing that waits is emitted. -/
def Waiting (chain : List Identifier) (p : Progress) : Prop :=
  ∀ id ∈ chain, id ∉ p.emitted

theorem waiting_nil (p : Progress) : Waiting [] p := by
  intro id hid
  cases hid

theorem Waiting.concat (h : Waiting chain p) (hnew : id ∉ p.emitted) :
    Waiting (chain ++ [id]) p := by
  intro b hb
  rcases List.mem_append.1 hb with hb | hb
  · exact h b hb
  · rw [List.mem_singleton.1 hb]
    exact hnew

/-- What waited last is emitted, and the others go on waiting. -/
theorem Waiting.emit {d : Definition} (h : Waiting (chain ++ [id]) p) (hchain : id ∉ chain) :
    Waiting chain (p.emit id d) := by
  intro b hb hmem
  rcases List.mem_cons.1 hmem with rfl | hmem
  · exact hchain hb
  · exact h b (List.mem_append_left _ hb) hmem

/-- What waits is not emitted before the walk is back at it. -/
theorem Walk.waiting {result} (h : Walk m chain p ids result) (hok : result = .ok p')
    (hwaiting : Waiting chain p) : Waiting chain p' := by
  induction h generalizing p' with
  | done =>
    cases hok
    exact hwaiting
  | pass _ _ ih => exact ih hok hwaiting
  | cycle => cases hok
  | undefined => cases hok
  | stuck => cases hok
  | @emit chain _ id _ _ p₁ _ hnew hchain _ _ _ ihbelow ih =>
    have hbelow : Waiting (chain ++ [id]) p₁ := ihbelow rfl (hwaiting.concat hnew)
    exact ih hok (hbelow.emit hchain)

/-- The invariant of a walk. -/
theorem Walk.wellOrdered {result} (h : Walk m chain p ids result) (hok : result = .ok p')
    (hwaiting : Waiting chain p) (hp : WellOrdered m p) : WellOrdered m p' := by
  induction h generalizing p' with
  | done =>
    cases hok
    exact hp
  | pass _ _ ih => exact ih hok hwaiting hp
  | cycle => cases hok
  | undefined => cases hok
  | stuck => cases hok
  | @emit chain _ id _ d p₁ _ hnew hchain hd hbelow _ ihbelow ih =>
    have hbelowWaiting : Waiting (chain ++ [id]) p₁ := hbelow.waiting rfl (hwaiting.concat hnew)
    -- the identifier waits while its dependencies are visited, so it is still new after that
    have hstill : id ∉ p₁.emitted := hbelowWaiting id (by simp)
    have hp₁ : WellOrdered m p₁ := ihbelow rfl (hwaiting.concat hnew) hp
    have hdependencies : ∀ b ∈ d.dependencies, b ∈ p₁.emitted := hbelow.ids_subset rfl
    exact ih hok (hbelowWaiting.emit hchain) (hp₁.emit hstill hd hdependencies)

/-- Nothing is emitted but what the walk comes to. -/
theorem Walk.emitted_of_closed {result} {s : Identifier → Prop} (hs : m.Closed s)
    (h : Walk m chain p ids result) (hok : result = .ok p') (hids : ∀ id ∈ ids, s id)
    (hp : ∀ id ∈ p.emitted, s id) : ∀ id ∈ p'.emitted, s id := by
  induction h generalizing p' with
  | done =>
    cases hok
    exact hp
  | pass _ _ ih =>
    rw [List.forall_mem_cons] at hids
    exact ih hok hids.2 hp
  | cycle => cases hok
  | undefined => cases hok
  | stuck => cases hok
  | @emit _ _ id _ d p₁ _ _ _ hd _ _ ihbelow ih =>
    rw [List.forall_mem_cons] at hids
    have hbelow : ∀ b ∈ p₁.emitted, s b := ihbelow rfl (hs.mem_dependencies hids.1 hd) hp
    have hemitted : ∀ b ∈ (p₁.emit id d).emitted, s b := List.forall_mem_cons.2 ⟨hids.1, hbelow⟩
    exact ih hok hids.2 hemitted

/-! ## Walks that fail -/

/-- A chain leads to identifiers: it is a path along dependencies to each of them, which meets
nothing twice and stays in a set. -/
structure LeadsTo (m : Model) (s : Identifier → Prop) (chain ids : List Identifier) : Prop where
  chain_mem : ∀ id ∈ chain, s id
  ids_mem : ∀ id ∈ ids, s id
  nodup : chain.Nodup
  isChain : ∀ id ∈ ids, (chain ++ [id]).IsChain m.Needs

namespace LeadsTo

variable {s : Identifier → Prop} {rest : List Identifier}

theorem nil (hids : ∀ id ∈ ids, s id) : LeadsTo m s [] ids where
  chain_mem := by simp
  ids_mem := hids
  nodup := List.nodup_nil
  isChain := by simp

theorem tail (h : LeadsTo m s chain (id :: rest)) : LeadsTo m s chain rest where
  chain_mem := h.chain_mem
  ids_mem := (List.forall_mem_cons.1 h.ids_mem).2
  nodup := h.nodup
  isChain := (List.forall_mem_cons.1 h.isChain).2

/-- A chain that goes on to an identifier leads to what that depends on. -/
theorem below {d : Definition} (h : LeadsTo m s chain (id :: rest)) (hs : m.Closed s)
    (hnew : id ∉ chain) (hd : m.define id = .ok d) :
    LeadsTo m s (chain ++ [id]) d.dependencies where
  chain_mem := by
    intro b hb
    rcases List.mem_append.1 hb with hb | hb
    · exact h.chain_mem b hb
    · rw [List.mem_singleton.1 hb]
      exact h.ids_mem id List.mem_cons_self
  ids_mem := hs.mem_dependencies (h.ids_mem id List.mem_cons_self) hd
  nodup := by
    rw [← List.concat_eq_append, List.nodup_concat]
    exact ⟨hnew, h.nodup⟩
  isChain := by
    intro b hb
    refine (h.isChain id List.mem_cons_self).append (by simp) ?_
    intro x hx y hy
    rw [List.getLast?_concat, Option.mem_some_iff] at hx
    rw [List.head?_singleton, Option.mem_some_iff] at hy
    rw [← hx, ← hy]
    exact ⟨d, hd, hb⟩

/-- A chain that leads back to something on it holds a cycle. -/
theorem cycle (h : LeadsTo m s chain (id :: rest)) (hwaits : id ∈ chain) :
    IsLoop (chain.dropWhile (· ≠ id) ++ [id]) ∧
      (chain.dropWhile (· ≠ id) ++ [id]).IsChain m.Needs ∧
        ∀ b ∈ chain.dropWhile (· ≠ id) ++ [id], s b := by
  have hpath : (chain ++ [id]).IsChain m.Needs := h.isChain id List.mem_cons_self
  refine ⟨isLoop_cut hwaits h.nodup, isChain_cut hwaits hpath, ?_⟩
  intro b hb
  rcases List.mem_append.1 hb with hb | hb
  · have hchain : b ∈ chain := (List.dropWhile_sublist _).subset hb
    exact h.chain_mem b hchain
  · rw [List.mem_singleton.1 hb]
    exact h.chain_mem id hwaits

end LeadsTo

/-- A walk fails where an identifier that it comes to has no definition, or where its chain is
closed. -/
theorem Walk.error {result} {s : Identifier → Prop} {err : DefinitionError} (hs : m.Closed s)
    (h : Walk m chain p ids result) (herr : result = .error err) (hleads : LeadsTo m s chain ids) :
    (∃ id, s id ∧ m.define id = .error err) ∨
      ∃ path, err = .cyclicDependency path ∧ IsLoop path ∧ path.IsChain m.Needs ∧
        ∀ id ∈ path, s id := by
  induction h with
  | done => cases herr
  | pass _ _ ih => exact ih herr hleads.tail
  | cycle _ hwaits =>
    cases herr
    rcases hleads.cycle hwaits with ⟨hloop, hpath, hmem⟩
    exact Or.inr ⟨_, rfl, hloop, hpath, hmem⟩
  | @undefined _ _ id _ _ _ _ hd =>
    cases herr
    exact Or.inl ⟨id, hleads.ids_mem id List.mem_cons_self, hd⟩
  | stuck _ hnew hd _ ih => exact ih herr (hleads.below hs hnew hd)
  | emit _ _ _ _ _ _ ih => exact ih herr hleads.tail

/-! ## The walks of a sample -/

/-- What the record of the sample leads to. -/
theorem sample_define : ∃ text named node, sample.define "ID_common.Text" = .ok text ∧
    sample.define "ID_common.Named" = .ok named ∧ sample.define "ID_flight.Node" = .ok node ∧
    [text.id, named.id, node.id] = ["ID_common.Text", "ID_common.Named", "ID_flight.Node"] ∧
    text.dependencies = [] ∧ named.dependencies = ["ID_common.Text"] ∧
    node.dependencies = ["ID_common.Text", "ID_common.Named"] := by
  have htext : ∃ d, sample.define "ID_common.Text" = .ok d ∧ d.id = "ID_common.Text" ∧
      d.dependencies = [] := exists_define (by decide +kernel)
  have hnamed : ∃ d, sample.define "ID_common.Named" = .ok d ∧ d.id = "ID_common.Named" ∧
      d.dependencies = ["ID_common.Text"] := exists_define (by decide +kernel)
  have hnode : ∃ d, sample.define "ID_flight.Node" = .ok d ∧ d.id = "ID_flight.Node" ∧
      d.dependencies = ["ID_common.Text", "ID_common.Named"] := exists_define (by decide +kernel)
  rcases htext with ⟨text, htext, htextId, hbelowText⟩
  rcases hnamed with ⟨named, hnamed, hnamedId, hbelowNamed⟩
  rcases hnode with ⟨node, hnode, hnodeId, hbelowNode⟩
  refine ⟨text, named, node, htext, hnamed, hnode, ?_, hbelowText, hbelowNamed, hbelowNode⟩
  rw [htextId, hnamedId, hnodeId]

theorem sample_resolve_node : ∃ ds, (sample.resolve ["ID_flight.Node"]).result = .ok ds ∧
    ds.map (·.id) = ["ID_common.Text", "ID_common.Named", "ID_flight.Node"] := by
  rcases sample_define with ⟨text, named, node, htext, hnamed, hnode, hids, hbelowText, hbelowNamed,
    hbelowNode⟩
  let p₁ := ({} : Progress).emit "ID_common.Text" text
  let p₂ := p₁.emit "ID_common.Named" named
  have hwalkText : Walk sample ["ID_flight.Node", "ID_common.Text"] {} text.dependencies
      (.ok {}) := by
    rw [hbelowText]
    exact .done
  have hwalkNamed : Walk sample ["ID_flight.Node", "ID_common.Named"] p₁ named.dependencies
      (.ok p₁) := by
    rw [hbelowNamed]
    exact .pass (by simp [p₁, Progress.emit]) .done
  have hwalkNode : Walk sample ["ID_flight.Node"] {} node.dependencies (.ok p₂) := by
    rw [hbelowNode]
    exact .emit (by simp) (by simp) htext hwalkText
      (.emit (by simp [Progress.emit]) (by simp) hnamed hwalkNamed .done)
  have hwalk : Walk sample [] {} ["ID_flight.Node"] (.ok (p₂.emit "ID_flight.Node" node)) :=
    .emit (by simp) (by simp) hnode hwalkNode .done
  exact ⟨[text, named, node], hwalk.resolve_eq_ok, hids⟩

theorem sample_resolve_ping : (sample.resolve ["ID_common.Ping"]).result =
    .error (.cyclicDependency ["ID_common.Ping", "ID_common.Pong", "ID_common.Ping"]) := by
  have hdefine : (∃ d, sample.define "ID_common.Ping" = .ok d ∧ d.id = "ID_common.Ping" ∧
      d.dependencies = ["ID_common.Pong"]) ∧
      ∃ d, sample.define "ID_common.Pong" = .ok d ∧ d.id = "ID_common.Pong" ∧
        d.dependencies = ["ID_common.Ping"] :=
    ⟨exists_define (by decide +kernel), exists_define (by decide +kernel)⟩
  rcases hdefine with ⟨⟨ping, hping, -, hbelowPing⟩, pong, hpong, -, hbelowPong⟩
  have hcut : (["ID_common.Ping", "ID_common.Pong"].dropWhile (· ≠ "ID_common.Ping")) ++
      ["ID_common.Ping"] = ["ID_common.Ping", "ID_common.Pong", "ID_common.Ping"] := by decide
  have hback : Walk sample ["ID_common.Ping", "ID_common.Pong"] {} pong.dependencies
      (.error (.cyclicDependency ["ID_common.Ping", "ID_common.Pong", "ID_common.Ping"])) := by
    rw [hbelowPong, ← hcut]
    exact .cycle (by simp) (by simp)
  have hwalk : Walk sample ["ID_common.Ping"] {} ping.dependencies
      (.error (.cyclicDependency ["ID_common.Ping", "ID_common.Pong", "ID_common.Ping"])) := by
    rw [hbelowPing]
    exact .stuck (by simp) (by simp) hpong hback
  exact Walk.resolve_eq_error (.stuck (by simp) (by simp) hping hwalk)

end UmlTyping.Model
