import Mathlib.Data.List.Perm.Subperm
import UmlTyping.Proofs.Balance

/-!
# How much a resolution does

A resolution always comes to an end, however its entries depend on one another: its calls are nested
no deeper than the model has entries, and one call more. For every call that waits has put an entry
in progress that was not, and only entries of the model are put in progress
(`Balanced.depth_le`).

No entry is compiled twice, also if the resolution fails. As long as none is refused, those compiled
are the ones emitted and the ones in progress (`Tallies`), so that in the end they are those of the
definitions. The events that tell of compiling show the same (`resolve_bounded`).
-/

namespace UmlTyping

/-- The entry that an event says is about to be compiled. -/
def Event.compiled? : Event → Option Identifier
  | .compiling _ id => some id
  | _ => none

/-- The entries that events say were compiled. -/
def compiledIn (events : List Event) : List Identifier := events.filterMap Event.compiled?

/-- How deep the next call is nested. -/
def Resolver.depth (r : Resolver) : Nat := r.frames.length + 1

/-! ## Events of compiling -/

theorem compiledIn_append (es es' : List Event) :
    compiledIn (es ++ es') = compiledIn es ++ compiledIn es' :=
  List.filterMap_append

/-- A computation that tells of no compiling. -/
def Run.CompilesNothing {ε α : Type} (x : Run ε α) : Prop := compiledIn x.events = []

namespace Run.CompilesNothing

variable {ε α β : Type} {x : Run ε α} {f : α → Run ε β}

theorem bind (hx : x.CompilesNothing) (hf : ∀ a, (f a).CompilesNothing) :
    (x >>= f).CompilesNothing := by
  unfold CompilesNothing
  cases h : x.result with
  | error e =>
    rw [bind_of_error h]
    exact hx
  | ok a =>
    rw [bind_of_ok h, compiledIn_append, hx, hf a, List.nil_append]

end Run.CompilesNothing

theorem Fields.compilesNothing_addAttribute (m : Model) (id : Identifier) (owner : String)
    (f : Fields) (a : Attribute) : (f.addAttribute m id owner a).CompilesNothing := by
  unfold addAttribute
  refine .bind rfl fun x => ?_
  obtain ⟨t, dependency⟩ := x
  dsimp only
  split
  · split
    · rfl
    · rfl
  · split
    · rfl
    · rfl

theorem Fields.compilesNothing_addAttributes (m : Model) (id : Identifier) (owner : String)
    (f : Fields) (attributes : List Attribute) :
    (f.addAttributes m id owner attributes).CompilesNothing := by
  induction attributes generalizing f with
  | nil => rfl
  | cons a rest ih =>
    rw [addAttributes]
    exact .bind (compilesNothing_addAttribute m id owner f a) ih

/-- Compiling an entry tells of that entry, unless it is refused before, and of no other. -/
theorem Entry.compiledIn_compile (m : Model) (e : Entry) :
    compiledIn (e.compile m).events = [e.id] ∨
      compiledIn (e.compile m).events = [] ∧ ∃ err, (e.compile m).result = .error err := by
  unfold compile
  cases Kind.ofTag? e.tag with
  | none => exact Or.inr ⟨rfl, _, rfl⟩
  | some kind =>
    cases e.id.package? with
    | none => exact Or.inr ⟨rfl, _, rfl⟩
    | some owner =>
      have hrecord : (e.compileRecord m owner).CompilesNothing := by
        refine .bind (Fields.compilesNothing_addAttributes m e.id owner {} e.attributes) fun f => ?_
        exact .bind rfl fun base => rfl
      refine Or.inl ?_
      cases kind with
      | enumeration => rfl
      | primitive => rfl
      | record => exact congrArg (e.id :: ·) hrecord

namespace Model

variable {m : Model} {r r' : Resolver} {frames : List Frame}
  {pending emitted roots rest : List Identifier} {id : Identifier}

/-! ## Depth -/

theorem length_ids (m : Model) : m.ids.length = m.entries.length := by
  simp [ids, entries, Table.keys, Table.values, List.length_flatMap]

theorem Stacked.define_eq (h : m.Stacked emitted frames pending) :
    ∀ f ∈ frames, m.define f.id = .ok f.definition := by
  induction h with
  | nil => simp
  | cons hd _ _ _ ih => exact List.forall_mem_cons.2 ⟨hd, ih⟩

/-- What is in progress is found in the model. -/
theorem Balanced.inProgress_subset (h : m.Balanced r) : r.inProgress ⊆ m.ids := by
  intro id hid
  rw [h.inProgress_eq, List.mem_reverse] at hid
  obtain ⟨f, hf, rfl⟩ := List.mem_map.1 hid
  exact mem_ids_of_define_eq_ok (h.stacked.define_eq f hf)

theorem Balanced.depth_le (h : m.Balanced r) : r.depth ≤ m.entries.length + 1 := by
  have hlength : r.inProgress.length = r.frames.length := by
    rw [h.inProgress_eq, List.length_reverse, List.length_map]
  have hle : r.inProgress.length ≤ m.ids.length :=
    (h.nodup.subperm h.inProgress_subset).length_le
  rw [hlength, length_ids] at hle
  exact Nat.succ_le_succ hle

/-- Calls get deeper only where an entry of the model is put in progress that was not. -/
theorem Step.deepens (h : m.Step r r') (hdepth : r.depth < r'.depth) : ∃ id e,
    m.find? id = some e ∧ id ∉ r.inProgress ∧ r'.inProgress = r.inProgress ++ [id] := by
  cases h with
  | enter hnew he _ => exact ⟨_, _, he, hnew.2.2, addOnce_of_not_mem hnew.2.2⟩
  | leave _ _ hframes =>
    simp only [Resolver.depth, hframes, List.length_cons] at hdepth
    omega
  | root => exact absurd hdepth (Nat.lt_irrefl _)
  | finish => exact absurd hdepth (Nat.lt_irrefl _)
  | pass => exact absurd hdepth (Nat.lt_irrefl _)
  | cycle => exact absurd hdepth (Nat.lt_irrefl _)
  | missing => exact absurd hdepth (Nat.lt_irrefl _)
  | reject => exact absurd hdepth (Nat.lt_irrefl _)

/-! ## Compiling -/

/-- What was compiled is what is emitted or in progress, and the events tell of it. -/
structure Tallies (r : Resolver) : Prop where
  perm : r.compiled.Perm (r.progress.emitted ++ r.inProgress)
  compiledIn_eq : compiledIn r.events = r.compiled

/-- An entry was refused, of which the events need not tell. -/
structure Refused (r : Resolver) : Prop where
  failed : ∃ err, r.outcome = some (.error err)
  nodup : r.compiled.Nodup
  compiledIn_prefix : compiledIn r.events <+: r.compiled

theorem Tallies.nodup (h : Tallies r) (hr : m.Balanced r) : r.compiled.Nodup := by
  rw [h.perm.nodup_iff, List.nodup_append']
  exact ⟨hr.wellOrdered.nodup_emitted, hr.nodup, fun b hb hmem => hr.waiting b hmem hb⟩

/-- An event that does not tell of compiling, and progress that compiles nothing. -/
theorem Tallies.of_report {event : Event} (h : Tallies r) (hcompiled : r'.compiled = r.compiled)
    (hperm : (r'.progress.emitted ++ r'.inProgress).Perm (r.progress.emitted ++ r.inProgress))
    (hevents : r'.events = r.events ++ [event]) (hevent : event.compiled? = none) : Tallies r' where
  perm := by
    rw [hcompiled]
    exact h.perm.trans hperm.symm
  compiledIn_eq := by
    have hnone : compiledIn [event] = [] := by simp [compiledIn, hevent]
    rw [hevents, compiledIn_append, hnone, List.append_nil, hcompiled, h.compiledIn_eq]

theorem Tallies.step (hm : m.Coherent) (hr : m.Balanced r) (h : Tallies r) (hstep : m.Step r r') :
    Tallies r' ∨ Refused r' := by
  cases hstep with
  | root => exact Or.inl (h.of_report rfl (.refl _) rfl rfl)
  | finish => exact Or.inl (h.of_report rfl (.refl _) rfl rfl)
  | pass => exact Or.inl (h.of_report rfl (.refl _) rfl rfl)
  | cycle => exact Or.inl ⟨h.perm, h.compiledIn_eq⟩
  | missing => exact Or.inl ⟨h.perm, h.compiledIn_eq⟩
  | @leave f _ _ _ hframes =>
    -- the entry that is emitted is the last one in progress
    have hlast : r.inProgress.dropLast ++ [f.id] = r.inProgress := (hr.dropLast_concat hframes).2
    have hperm : (f.id :: (r.progress.emitted ++ r.inProgress.dropLast)).Perm
        (r.progress.emitted ++ r.inProgress.dropLast ++ [f.id]) :=
      (List.perm_append_singleton _ _).symm
    rw [List.append_assoc, hlast] at hperm
    exact Or.inl (h.of_report rfl hperm rfl rfl)
  | @enter id _ e d hnew he hd =>
    refine Or.inl ⟨?_, ?_⟩
    · show (r.compiled ++ [id]).Perm (r.progress.emitted ++ addOnce r.inProgress id)
      rw [addOnce_of_not_mem hnew.2.2, ← List.append_assoc]
      exact h.perm.append_right [id]
    · have htold : compiledIn (e.compile m).events = [id] := by
        rcases e.compiledIn_compile m with htold | ⟨-, err, herr⟩
        · rw [htold, hm.id_eq he]
        · rw [hd] at herr
          cases herr
      show compiledIn (r.events ++ (e.compile m).events) = r.compiled ++ [id]
      rw [compiledIn_append, htold, h.compiledIn_eq]
  | @reject id _ e err hnew he herr =>
    refine Or.inr ⟨⟨err, rfl⟩, ?_, ?_⟩
    · have hfresh : id ∉ r.compiled := by
        rw [h.perm.mem_iff, List.mem_append, not_or]
        exact hnew.2
      show (r.compiled ++ [id]).Nodup
      rw [← List.concat_eq_append, List.nodup_concat]
      exact ⟨hfresh, h.nodup hr⟩
    · show compiledIn (r.events ++ (e.compile m).events) <+: r.compiled ++ [id]
      rw [compiledIn_append, h.compiledIn_eq, List.prefix_append_right_inj]
      rcases e.compiledIn_compile m with htold | ⟨htold, -⟩
      · simp [htold, hm.id_eq he]
      · simp [htold]

/-- At every moment of a resolution the compiled entries are accounted for, up to the one that was
refused. -/
theorem Reached.tallies (hm : m.Coherent) (h : m.Reached roots r) : Tallies r ∨ Refused r := by
  unfold Reached at h
  induction h with
  | refl => exact Or.inl ⟨.refl _, rfl⟩
  | tail hsteps hstep ih =>
    rcases ih with htallies | hrefused
    · exact htallies.step hm (Reached.balanced hsteps) hstep
    · -- a resolution that has refused an entry is at its end
      obtain ⟨err, herr⟩ := hrefused.failed
      have hrunning := hstep.running
      rw [herr] at hrunning
      cases hrunning

/-- No entry was compiled twice. -/
theorem Reached.compiled_nodup (hm : m.Coherent) (h : m.Reached roots r) :
    r.compiled.Nodup ∧ compiledIn r.events <+: r.compiled := by
  rcases h.tallies hm with htallies | hrefused
  · exact ⟨htallies.nodup h.balanced, htallies.compiledIn_eq ▸ List.prefix_rfl⟩
  · exact ⟨hrefused.nodup, hrefused.compiledIn_prefix⟩

/-! ## Bounds -/

/-- Only at the end of the roots does a resolution succeed. -/
theorem Step.finished {ds : List Definition} (h : m.Step r r') (hds : r'.outcome = some (.ok ds)) :
    r'.progress.ordered = ds ∧ r'.frames = [] := by
  have hnone : r.outcome = none := h.running
  cases h with
  | finish _ hframes =>
    cases hds
    exact ⟨rfl, hframes⟩
  | root => cases hnone.symm.trans hds
  | pass => cases hnone.symm.trans hds
  | enter => cases hnone.symm.trans hds
  | leave => cases hnone.symm.trans hds
  | cycle => cases hds
  | missing => cases hds
  | reject => cases hds

/-- In a resolution that succeeds, what was compiled is what is defined, and the events tell of it. -/
theorem Reached.compiled_perm {ds : List Definition} (hm : m.Coherent) (h : m.Reached roots r)
    (hds : r.outcome = some (.ok ds)) :
    r.compiled.Perm (ds.map (·.id)) ∧ compiledIn r.events = r.compiled := by
  have hbalanced : m.Balanced r := h.balanced
  obtain ⟨hordered, hframes⟩ : r.progress.ordered = ds ∧ r.frames = [] := by
    rcases Relation.ReflTransGen.cases_tail h with rfl | ⟨r₁, -, hstep⟩
    · cases hds
    · exact hstep.finished hds
  rcases h.tallies hm with htallies | hrefused
  · -- nothing is in progress any more
    have hnothing : r.inProgress = [] := by
      rw [hbalanced.inProgress_eq, hframes]
      rfl
    have hperm : r.compiled.Perm r.progress.emitted := by
      simpa [hnothing] using htallies.perm
    refine ⟨?_, htallies.compiledIn_eq⟩
    rw [← hordered, hbalanced.wellOrdered.map_id hm]
    exact hperm.trans (List.reverse_perm _).symm
  · obtain ⟨err, herr⟩ := hrefused.failed
    rw [hds] at herr
    cases herr

/-- What is used up by a moment of a resolution. -/
structure Bounded (m : Model) (r : Resolver) : Prop where
  /-- Calls are nested no deeper than the model has entries, and one more. -/
  depth_le : r.depth ≤ m.entries.length + 1
  /-- They get deeper only where an entry of the model is put in progress that was not. -/
  deepens : ∀ r', m.Step r r' → r.depth < r'.depth → ∃ id e,
    m.find? id = some e ∧ id ∉ r.inProgress ∧ r'.inProgress = r.inProgress ++ [id]
  /-- No entry was compiled twice. -/
  compiled_nodup : r.compiled.Nodup
  /-- In the end of a resolution that succeeds, the compiled entries are the defined ones. -/
  compiled_perm : ∀ ds, r.outcome = some (.ok ds) → r.compiled.Perm (ds.map (·.id))

theorem Reached.bounded (hm : m.Coherent) (h : m.Reached roots r) : m.Bounded r where
  depth_le := h.balanced.depth_le
  deepens _ hstep hdepth := hstep.deepens hdepth
  compiled_nodup := (h.compiled_nodup hm).1
  compiled_perm _ hds := (h.compiled_perm hm hds).1

/-- Whatever depends on what, a resolution of roots comes to its end, in bounds at every moment until
then, and with the events and the outcome of resolving these roots. The events tell of no entry twice
that it was compiled, and if there are definitions, of each of theirs. -/
theorem resolve_bounded (hm : m.IsLoaded) (roots : List Identifier) :
    (∃ r, m.Reached roots r ∧ r.outcome = some (m.resolve roots).result ∧
      r.events = (m.resolve roots).events ∧ ∀ r', m.Reached roots r' → m.Steps r' r) ∧
    (∀ r, m.Reached roots r → m.Bounded r) ∧
    (compiledIn (m.resolve roots).events).Nodup ∧
    ∀ ds, (m.resolve roots).result = .ok ds →
      (compiledIn (m.resolve roots).events).Perm (ds.map (·.id)) := by
  have hcoherent : m.Coherent := hm.coherent
  obtain ⟨r, hr, houtcome, hevents⟩ := exists_end m roots
  obtain ⟨hnodup, hprefix⟩ := hr.compiled_nodup hcoherent
  refine ⟨⟨r, hr, houtcome, hevents, fun r' hr' => hr.steps_end houtcome hr'⟩,
    fun r' hr' => hr'.bounded hcoherent, ?_, ?_⟩
  · rw [← hevents]
    exact hnodup.sublist hprefix.sublist
  · intro ds hds
    rw [hds] at houtcome
    obtain ⟨hperm, htold⟩ := hr.compiled_perm hcoherent houtcome
    rw [← hevents, htold]
    exact hperm

theorem sample_bounded :
    (∃ r, sample.Reached ["ID_common.Ping"] r ∧ r.outcome = some (.error (.cyclicDependency
      ["ID_common.Ping", "ID_common.Pong", "ID_common.Ping"])) ∧ sample.Bounded r) ∧
    (compiledIn (sample.resolve ["ID_flight.Node"]).events).Perm
      ["ID_common.Text", "ID_common.Named", "ID_flight.Node"] := by
  obtain ⟨⟨r, hr, houtcome, -⟩, hbounded, -⟩ := resolve_bounded sample_isLoaded ["ID_common.Ping"]
  obtain ⟨-, -, -, htold⟩ := resolve_bounded sample_isLoaded ["ID_flight.Node"]
  rw [sample_resolve_ping] at houtcome
  obtain ⟨ds, hds, hids⟩ := sample_resolve_node
  exact ⟨⟨r, hr, houtcome, hbounded r hr⟩, hids ▸ htold ds hds⟩

end Model

end UmlTyping
