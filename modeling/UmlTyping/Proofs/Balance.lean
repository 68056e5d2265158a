import UmlTyping.Proofs.Resolution
import UmlTyping.Proofs.Stepping

/-!
# What a resolution keeps

In the course of a resolution entries are put in progress and taken off again. At every moment they
are those of the calls that wait, from the first to the last (`Balanced`): each is a dependency of
the one before it, and none of them is emitted. What each of the calls depends on is emitted, or the
call has it still before it (`Stacked`), so that an entry is emitted behind its dependencies.

Every step keeps this (`Balanced.step`), hence every resolution does (`Reached.balanced`). So a visit
that succeeds leaves the entries in progress as they were, whatever calls it made and whatever these
put in progress, and adds its own entry behind all that it needs (`visit_keeps`).
-/

namespace UmlTyping

namespace Model

/-- Calls wait for one another: each has a definition, is a dependency of the call that waits for
it, and has emitted its own dependencies but for those that it has still to visit. -/
inductive Stacked (m : Model) (emitted : List Identifier) : List Frame → List Identifier → Prop
  | nil {pending} : Stacked m emitted [] pending
  | cons {f frames pending} : m.define f.id = .ok f.definition →
      pending ⊆ f.definition.dependencies →
      (∀ b ∈ f.definition.dependencies, b ∈ emitted ∨ b ∈ pending) →
      Stacked m emitted frames (f.id :: f.rest) → Stacked m emitted (f :: frames) pending

/-- The entries in progress are those of the calls that wait. -/
structure Balanced (m : Model) (r : Resolver) : Prop where
  inProgress_eq : r.inProgress = (r.frames.map (·.id)).reverse
  nodup : r.inProgress.Nodup
  waiting : Waiting r.inProgress r.progress
  wellOrdered : WellOrdered m r.progress
  stacked : Stacked m r.progress.emitted r.frames r.pending

variable {m : Model} {r r' : Resolver} {emitted emitted' pending rest roots : List Identifier}
  {frames : List Frame} {id : Identifier} {p p' : Progress}

/-! ## Calls that wait -/

namespace Stacked

theorem mono (h : m.Stacked emitted frames pending) (hsub : emitted ⊆ emitted') :
    m.Stacked emitted' frames pending := by
  induction h with
  | nil => exact .nil
  | cons hd hpending hdependencies _ ih =>
    exact .cons hd hpending (fun b hb => (hdependencies b hb).imp_left fun hmem => hsub hmem) ih

/-- What is emitted need not be visited. -/
theorem pass (h : m.Stacked emitted frames (id :: rest)) (hid : id ∈ emitted) :
    m.Stacked emitted frames rest := by
  cases h with
  | nil => exact .nil
  | cons hd hpending hdependencies hbelow =>
    refine .cons hd (List.subset_of_cons_subset hpending) (fun b hb => ?_) hbelow
    rcases hdependencies b hb with hmem | hmem
    · exact Or.inl hmem
    · rcases List.mem_cons.1 hmem with rfl | hmem
      · exact Or.inl hid
      · exact Or.inr hmem

/-- The calls that wait lead along dependencies to whatever is visited next. -/
theorem isChain (h : m.Stacked emitted frames pending) (hid : id ∈ pending) :
    ((frames.map (·.id)).reverse ++ [id]).IsChain m.Needs := by
  induction h generalizing id with
  | nil => exact List.isChain_singleton id
  | @cons f frames pending hd hpending _ _ ih =>
    rw [List.map_cons, List.reverse_cons]
    have hcaller : ((frames.map (·.id)).reverse ++ [f.id]).IsChain m.Needs := ih List.mem_cons_self
    have hneeds : m.Needs f.id id := ⟨f.definition, hd, hpending hid⟩
    refine hcaller.append (List.isChain_singleton id) ?_
    intro x hx y hy
    rw [List.getLast?_concat, Option.mem_some_iff] at hx
    rw [List.head?_singleton, Option.mem_some_iff] at hy
    rw [← hx, ← hy]
    exact hneeds

end Stacked

/-! ## Steps -/

namespace Balanced

theorem start (m : Model) (roots : List Identifier) : m.Balanced { roots } where
  inProgress_eq := rfl
  nodup := List.nodup_nil
  waiting := waiting_nil {}
  wellOrdered := .start
  stacked := .nil

/-- An entry is put in progress, and its dependencies are visited next. -/
theorem enter {d : Definition} {compiled : List Identifier} {events : List Event}
    (h : m.Balanced r) (hnew : r.CallsNew id rest) (hd : m.define id = .ok d) :
    m.Balanced { r with
      inProgress := addOnce r.inProgress id
      frames := ⟨id, d, rest⟩ :: r.frames
      pending := d.dependencies
      compiled, events } := by
  have hbelow : m.Stacked r.progress.emitted r.frames (id :: rest) := hnew.1.2 ▸ h.stacked
  rw [addOnce_of_not_mem hnew.2.2]
  exact {
    inProgress_eq := by simp [h.inProgress_eq]
    nodup := by
      rw [← List.concat_eq_append, List.nodup_concat]
      exact ⟨hnew.2.2, h.nodup⟩
    waiting := h.waiting.concat hnew.2.1
    wellOrdered := h.wellOrdered
    stacked := .cons hd (List.Subset.refl _) (fun b hb => Or.inr hb) hbelow }

/-- The last entry in progress is that of the last call. -/
theorem dropLast_concat (h : m.Balanced r) {f : Frame} (hframes : r.frames = f :: frames) :
    r.inProgress.dropLast = (frames.map (·.id)).reverse ∧
      r.inProgress.dropLast ++ [f.id] = r.inProgress := by
  have hlast : r.inProgress = (frames.map (·.id)).reverse ++ [f.id] := by
    rw [h.inProgress_eq, hframes, List.map_cons, List.reverse_cons]
  rw [hlast, List.dropLast_concat]
  exact ⟨rfl, rfl⟩

/-- The last entry in progress is taken off and emitted. -/
theorem leave {f : Frame} {events : List Event} (h : m.Balanced r) (hpending : r.pending = [])
    (hframes : r.frames = f :: frames) :
    m.Balanced { r with
      progress := r.progress.emit f.id f.definition
      inProgress := r.inProgress.dropLast
      frames
      pending := f.rest
      events } := by
  obtain ⟨hdropped, hlast⟩ := h.dropLast_concat hframes
  have hnodup : f.id ∉ r.inProgress.dropLast ∧ r.inProgress.dropLast.Nodup := by
    have hnodup : (r.inProgress.dropLast ++ [f.id]).Nodup := hlast.symm ▸ h.nodup
    rw [← List.concat_eq_append, List.nodup_concat] at hnodup
    exact hnodup
  have hwaiting : Waiting (r.inProgress.dropLast ++ [f.id]) r.progress := hlast.symm ▸ h.waiting
  have hstacked : m.Stacked r.progress.emitted (f :: frames) [] := hpending ▸ hframes ▸ h.stacked
  cases hstacked with
  | cons hd _ hdependencies hbelow =>
    -- nothing is left to visit, so all dependencies are emitted
    have hemitted : ∀ b ∈ f.definition.dependencies, b ∈ r.progress.emitted :=
      fun b hb => (hdependencies b hb).resolve_right List.not_mem_nil
    have hnew : f.id ∉ r.progress.emitted := hwaiting f.id (by simp)
    exact {
      inProgress_eq := hdropped
      nodup := hnodup.2
      waiting := hwaiting.emit hnodup.1
      wellOrdered := h.wellOrdered.emit hnew hd hemitted
      stacked := (hbelow.mono (List.subset_cons_self _ _)).pass List.mem_cons_self }

/-- Every step keeps the balance. -/
theorem step (h : m.Balanced r) (hstep : m.Step r r') : m.Balanced r' := by
  cases hstep with
  | root _ hframes hpending _ =>
    refine ⟨h.inProgress_eq, h.nodup, h.waiting, h.wellOrdered, ?_⟩
    show m.Stacked _ r.frames _
    rw [hframes]
    exact .nil
  | pass hcalls hemitted =>
    have hstacked : m.Stacked r.progress.emitted r.frames (_ :: _) := hcalls.2 ▸ h.stacked
    exact ⟨h.inProgress_eq, h.nodup, h.waiting, h.wellOrdered, hstacked.pass hemitted⟩
  | enter hnew he hd => exact h.enter hnew (define_eq_ok_iff.2 ⟨_, he, hd⟩)
  | leave _ hpending hframes => exact h.leave hpending hframes
  -- the resolution ends, with the same calls waiting
  | finish => exact ⟨h.inProgress_eq, h.nodup, h.waiting, h.wellOrdered, h.stacked⟩
  | cycle => exact ⟨h.inProgress_eq, h.nodup, h.waiting, h.wellOrdered, h.stacked⟩
  | missing => exact ⟨h.inProgress_eq, h.nodup, h.waiting, h.wellOrdered, h.stacked⟩
  | reject => exact ⟨h.inProgress_eq, h.nodup, h.waiting, h.wellOrdered, h.stacked⟩

/-- A call is reached along dependencies from the first entry in progress. -/
theorem isChain (h : m.Balanced r) (hcalls : r.Calls id rest) :
    (r.inProgress ++ [id]).IsChain m.Needs := by
  rw [h.inProgress_eq]
  refine h.stacked.isChain ?_
  rw [hcalls.2]
  exact List.mem_cons_self

end Balanced

theorem Reached.balanced (h : m.Reached roots r) : m.Balanced r := by
  unfold Reached at h
  induction h with
  | refl => exact .start m roots
  | tail _ hstep ih => exact ih.step hstep

/-! ## Visits -/

/-- What may be relied on whenever a call is made. -/
structure Consistent (m : Model) (r : Resolver) : Prop where
  /-- What is emitted has a definition, and nothing else has one. -/
  mem_emitted_iff : ∀ b, b ∈ r.progress.emitted ↔ b ∈ r.progress.ordered.map (·.id)
  /-- What is in progress is not emitted. -/
  disjoint : r.inProgress.Disjoint r.progress.emitted
  /-- What is emitted depends on what is emitted. -/
  closed : m.Closed (· ∈ r.progress.emitted)

/-- What a visit that succeeds has done. -/
structure Visited (m : Model) (id : Identifier) (r r' : Resolver) : Prop where
  inProgress_eq : r'.inProgress = r.inProgress
  emitted_subset : r.progress.emitted ⊆ r'.progress.emitted
  ordered_prefix : r.progress.ordered <+: r'.progress.ordered
  consistent : m.Consistent r'
  mem_emitted : id ∈ r'.progress.emitted
  /-- If the entry was not emitted, its own definition is the last of those that are new. -/
  ends_with : id ∉ r.progress.emitted → ∃ new d, m.define id = .ok d ∧ d.id = id ∧
    r'.progress.ordered = r.progress.ordered ++ new ++ [d]

theorem Coherent.consistent (hm : m.Coherent) (hwaiting : Waiting r.inProgress r.progress)
    (hp : WellOrdered m r.progress) : m.Consistent r where
  mem_emitted_iff _ := (hp.mem_map_id hm).symm
  disjoint id hid hemitted := hwaiting id hid hemitted
  closed := hp.closed

/-- A visit that succeeds and finds its entry new emits it behind whatever else it emits. -/
theorem exists_ordered_concat {chain : List Identifier}
    (h : (visit m chain p id).result = .ok p') (hnew : id ∉ p.emitted) :
    ∃ new d, m.define id = .ok d ∧ p'.ordered = p.ordered ++ new ++ [d] := by
  by_cases hchain : id ∈ chain
  · rw [visit_waiting hnew hchain] at h
    cases h
  · rw [visit_new hnew hchain] at h
    obtain ⟨d, hd, h⟩ := bind_eq_ok_iff.1 h
    obtain ⟨p₁, hbelow, h⟩ := bind_eq_ok_iff.1 h
    obtain rfl := Except.ok.inj h
    have hwalk : Walk m (chain ++ [id]) p d.dependencies (.ok p₁) :=
      hbelow ▸ walk_visitAll m (chain ++ [id]) p d.dependencies
    obtain ⟨new, hnew⟩ := hwalk.ordered_prefix rfl
    exact ⟨new, d, hd, congrArg (· ++ [d]) hnew.symm⟩

/-- A visit that succeeds comes back with the entries in progress as they were, and has emitted its
own entry behind all that this needs. Whenever a visit is made, each entry in progress is a dependency
of the one before it, and what is visited is one of the last. -/
theorem visit_keeps (hm : m.IsLoaded) (hr : m.Reached roots r) :
    m.Consistent r ∧
    (∀ id p, (visit m r.inProgress r.progress id).result = .ok p →
      ∃ r', m.Steps (r.calling id) r' ∧ (r.calling id).ReturnsTo r.pending p r' ∧
        m.Visited id r r') ∧
    ∀ id rest, r.Calls id rest → (r.inProgress ++ [id]).IsChain m.Needs := by
  have hbalanced : m.Balanced r := hr.balanced
  refine ⟨hm.coherent.consistent hbalanced.waiting hbalanced.wellOrdered, ?_,
    fun id rest hcalls => hbalanced.isChain hcalls⟩
  intro id p hp
  have hready : (r.calling id).Ready r.inProgress r.progress (id :: r.pending) :=
    ⟨rfl, rfl, rfl, rfl⟩
  obtain ⟨r', hsteps, -, hreturns⟩ := performs_visit (m := m) hready
  rw [hp] at hreturns
  obtain ⟨hrunning, hinProgress, hprogress, hpending⟩ := hreturns.ready
  have hwalk : Walk m r.inProgress r.progress [id] (.ok p) :=
    hp ▸ walk_visit m r.inProgress r.progress id
  refine ⟨r', hsteps, hreturns, ?_⟩
  subst hprogress
  exact {
    inProgress_eq := hinProgress
    emitted_subset := hwalk.emitted_subset rfl
    ordered_prefix := hwalk.ordered_prefix rfl
    consistent := by
      refine hm.coherent.consistent ?_ ?_
      · rw [hinProgress]
        exact hwalk.waiting rfl hbalanced.waiting
      · exact hwalk.wellOrdered rfl hbalanced.waiting hbalanced.wellOrdered
    mem_emitted := hwalk.ids_subset rfl id List.mem_cons_self
    ends_with := by
      intro hnew
      obtain ⟨new, d, hd, hordered⟩ := exists_ordered_concat hp hnew
      exact ⟨new, d, hd, hm.coherent.define_id hd, hordered⟩ }

/-- In the sample, the base of the record is visited while the record is in progress. What it needs is
emitted by then. -/
theorem sample_exists_reached : ∃ r, sample.Reached ["ID_flight.Node"] r ∧
    r.inProgress = ["ID_flight.Node"] ∧ r.Calls "ID_common.Named" [] ∧
    ∃ p, (visit sample r.inProgress r.progress "ID_common.Named").result = .ok p := by
  obtain ⟨text, named, node, htext, hnamed, hnode, -, hbelowText, hbelowNamed, hbelowNode⟩ :=
    sample_define
  obtain ⟨e, he, hcompile⟩ := define_eq_ok_iff.1 hnode
  let p₁ := ({} : Progress).emit "ID_common.Text" text
  have hvisitText : (visit sample ["ID_flight.Node"] {} "ID_common.Text").result = .ok p₁ := by
    rw [visit_new (by simp) (by simp), htext]
    show (visitAll sample _ {} text.dependencies).result >>= _ = _
    rw [hbelowText, visitAll]
    rfl
  have hvisitNamed : (visit sample ["ID_flight.Node"] p₁ "ID_common.Named").result =
      .ok (p₁.emit "ID_common.Named" named) := by
    have hbelow : Walk sample ["ID_flight.Node", "ID_common.Named"] p₁ named.dependencies
        (.ok p₁) := by
      rw [hbelowNamed]
      exact .pass (by simp [p₁, Progress.emit]) .done
    rw [visit_new (by simp [p₁, Progress.emit]) (by simp), hnamed]
    show (visitAll sample _ p₁ named.dependencies).result >>= _ = _
    rw [List.singleton_append, hbelow.result_eq]
    rfl
  -- the record is taken up and put in progress, and then its first dependency is visited
  let r₁ : Resolver := {
    roots := []
    pending := ["ID_flight.Node"]
    events := [.resolvingRoot "ID_flight.Node"] }
  have hroot : sample.Step { roots := ["ID_flight.Node"] } r₁ := .root rfl rfl rfl rfl
  have hnew : r₁.CallsNew "ID_flight.Node" [] := ⟨⟨rfl, rfl⟩, by simp [r₁], by simp [r₁]⟩
  obtain ⟨r₂, henter, hready₂⟩ : ∃ r₂, sample.Step r₁ r₂ ∧
      r₂.Ready ["ID_flight.Node"] {} ["ID_common.Text", "ID_common.Named"] :=
    ⟨_, .enter hnew he hcompile, rfl, addOnce_of_not_mem hnew.2.2, rfl, hbelowNode⟩
  obtain ⟨r₃, hsteps, -, hreturns⟩ := performs_visit (m := sample) hready₂
  rw [hvisitText] at hreturns
  obtain ⟨hrunning, hinProgress, hprogress, hpending⟩ := hreturns.ready
  rw [hready₂.inProgress] at hinProgress
  refine ⟨r₃, .head hroot (.head henter hsteps), hinProgress, ⟨hrunning, hpending⟩, ?_⟩
  rw [hinProgress, hprogress]
  exact ⟨_, hvisitNamed⟩

theorem sample_visit_keeps : ∃ r r', sample.Reached ["ID_flight.Node"] r ∧
    r.inProgress = ["ID_flight.Node"] ∧ sample.Visited "ID_common.Named" r r' ∧
    ["ID_flight.Node", "ID_common.Named"].IsChain sample.Needs := by
  obtain ⟨r, hreached, hinProgress, hcalls, p, hp⟩ := sample_exists_reached
  obtain ⟨-, hvisits, hchain⟩ := visit_keeps sample_isLoaded hreached
  obtain ⟨r', -, -, hvisited⟩ := hvisits _ p hp
  have hpath := hchain "ID_common.Named" [] hcalls
  rw [hinProgress] at hpath
  exact ⟨r, r', hreached, hinProgress, hvisited, hpath⟩

end Model

end UmlTyping
