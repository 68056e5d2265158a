import UmlTyping.Proofs.Walk

/-!
# Resolutions step by step

A resolution as a machine. The entries in progress are a part of its working memory here, to which
an entry is added when its dependencies are about to be visited and from which the last one is taken
off when they are done. The calls that wait for others are frames on a stack. What is reported and
which entries are compiled is kept as well. `Model.Step` has one rule for each thing that the
machine can do next.

The machine does what `Model.resolve` does: it comes to an end in which it has reported the same
events and has the same outcome (`exists_end`), and no run of it goes anywhere else
(`Reached.steps_end`). For a single visit, it comes back to the place of the call with the progress
of the visit and with the entries in progress as they were (`performs_visit`).
-/

namespace UmlTyping

/-- A call that waits for those that it makes. -/
structure Frame where
  /-- What is visited. -/
  id : Identifier
  /-- The definition to be emitted. -/
  definition : Definition
  /-- What the caller visits next. -/
  rest : List Identifier

/-- The working memory of a resolution and what is left to be done. -/
structure Resolver where
  /-- What is emitted, and the definitions in their order. -/
  progress : Progress := {}
  /-- The entries whose dependencies are being visited, each once and in the order of insertion. -/
  inProgress : List Identifier := []
  /-- The calls that wait, the last one first. -/
  frames : List Frame := []
  /-- What the last of these calls has yet to visit. -/
  pending : List Identifier := []
  /-- The roots that are not taken up yet. -/
  roots : List Identifier
  /-- What was compiled, in the order of the calls. -/
  compiled : List Identifier := []
  /-- What was reported. -/
  events : List Event := []
  /-- How the resolution ended, if it has. -/
  outcome : Option (Except DefinitionError (List Definition)) := none

namespace Resolver

/-- An identifier is about to be visited, and others behind it. -/
def Calls (r : Resolver) (id : Identifier) (rest : List Identifier) : Prop :=
  r.outcome = none ∧ r.pending = id :: rest

/-- An identifier is about to be visited that is neither emitted nor in progress. -/
def CallsNew (r : Resolver) (id : Identifier) (rest : List Identifier) : Prop :=
  r.Calls id rest ∧ id ∉ r.progress.emitted ∧ id ∉ r.inProgress

/-- The same working memory, from which a further call is made. -/
def calling (r : Resolver) (id : Identifier) : Resolver :=
  { r with pending := id :: r.pending, outcome := none }

/-- The resolution goes on with these identifiers, with the entries in progress and the progress
that are given. -/
structure Ready (r : Resolver) (chain : List Identifier) (p : Progress) (pending : List Identifier) :
    Prop where
  outcome : r.outcome = none
  inProgress : r.inProgress = chain
  progress : r.progress = p
  pending : r.pending = pending

/-- The resolution is back where a call was made, has made progress, and goes on with the rest. -/
structure ReturnsTo (r : Resolver) (rest : List Identifier) (p : Progress) (r' : Resolver) :
    Prop where
  ready : r'.Ready r.inProgress p rest
  frames : r'.frames = r.frames
  roots : r'.roots = r.roots

theorem ReturnsTo.trans {r r₁ r₂ : Resolver} {rest rest' : List Identifier} {p p' : Progress}
    (h : r.ReturnsTo rest p r₁) (h' : r₁.ReturnsTo rest' p' r₂) : r.ReturnsTo rest' p' r₂ where
  ready := h.ready.inProgress ▸ h'.ready
  frames := h'.frames.trans h.frames
  roots := h'.roots.trans h.roots

end Resolver

namespace Model

/-- What a resolution does next. -/
inductive Step (m : Model) (r : Resolver) : Resolver → Prop
  /-- The next root is taken up. -/
  | root {root roots} : r.outcome = none → r.frames = [] → r.pending = [] →
      r.roots = root :: roots →
      Step m r { r with pending := [root], roots, events := r.events ++ [.resolvingRoot root] }
  /-- There are no more roots. -/
  | finish : r.outcome = none → r.frames = [] → r.pending = [] → r.roots = [] →
      Step m r { r with
        events := r.events ++ [.resolved r.progress.ordered.length]
        outcome := some (.ok r.progress.ordered) }
  /-- The entry is emitted already. -/
  | pass {id rest} : r.Calls id rest → id ∈ r.progress.emitted →
      Step m r { r with pending := rest, events := r.events ++ [.alreadyEmitted id] }
  /-- The entry is in progress. -/
  | cycle {id rest} : r.Calls id rest → id ∉ r.progress.emitted → id ∈ r.inProgress →
      Step m r { r with
        outcome := some (.error (.cyclicDependency (r.inProgress.dropWhile (· ≠ id) ++ [id]))) }
  /-- There is no such entry. -/
  | missing {id rest} : r.CallsNew id rest → m.find? id = none →
      Step m r { r with outcome := some (.error (.unresolvedReference id)) }
  /-- The entry does not compile. -/
  | reject {id rest e err} : r.CallsNew id rest → m.find? id = some e →
      (e.compile m).result = .error err →
      Step m r { r with
        compiled := r.compiled ++ [id]
        events := r.events ++ (e.compile m).events
        outcome := some (.error err) }
  /-- The entry compiles, and waits for its dependencies from now on. -/
  | enter {id rest e d} : r.CallsNew id rest → m.find? id = some e →
      (e.compile m).result = .ok d →
      Step m r { r with
        inProgress := addOnce r.inProgress id
        frames := ⟨id, d, rest⟩ :: r.frames
        pending := d.dependencies
        compiled := r.compiled ++ [id]
        events := r.events ++ (e.compile m).events }
  /-- All dependencies are visited, and the entry is emitted. -/
  | leave {f frames} : r.outcome = none → r.pending = [] → r.frames = f :: frames →
      Step m r { r with
        progress := r.progress.emit f.id f.definition
        inProgress := r.inProgress.dropLast
        frames
        pending := f.rest
        events := r.events ++ [.emitting f.id] }

/-- Steps in sequence. -/
abbrev Steps (m : Model) : Resolver → Resolver → Prop := Relation.ReflTransGen m.Step

/-- A resolution of the roots comes to this. -/
def Reached (m : Model) (roots : List Identifier) (r : Resolver) : Prop :=
  m.Steps { roots } r

variable {m : Model} {r r' r₁ r₂ : Resolver} {α β : Type} {chain ids rest roots : List Identifier}
  {p : Progress} {id : Identifier}

/-! ## Runs of the machine -/

/-- What is done next is determined: no two rules apply in one place. -/
theorem step_rightUnique (m : Model) : Relator.RightUnique m.Step := by
  intro r r₁ r₂ h₁ h₂
  cases h₁ <;> cases h₂ <;> simp_all [Resolver.Calls, Resolver.CallsNew]

theorem Step.running (h : m.Step r r') : r.outcome = none := by
  cases h with
  | root hrunning => exact hrunning
  | finish hrunning => exact hrunning
  | pass hcalls => exact hcalls.1
  | cycle hcalls => exact hcalls.1
  | missing hnew => exact hnew.1.1
  | reject hnew => exact hnew.1.1
  | enter hnew => exact hnew.1.1
  | leave hrunning => exact hrunning

/-- There is one way for a resolution to go: whatever it comes to is on its way to the end. -/
theorem Reached.steps_end {outcome : Except DefinitionError (List Definition)}
    (hend : m.Reached roots r) (houtcome : r.outcome = some outcome) (h : m.Reached roots r') :
    m.Steps r' r := by
  rcases Relation.ReflTransGen.total_of_right_unique (step_rightUnique m) hend h with
    hafter | hbefore
  · rcases Relation.ReflTransGen.cases_head hafter with rfl | ⟨r₁, hstep, -⟩
    · exact .refl
    · -- nothing is done any more at the end
      have hrunning : r.outcome = none := hstep.running
      rw [houtcome] at hrunning
      cases hrunning
  · exact hbefore

/-- Steps from here perform a computation: they report the same events, and come to its error, or
to what is said of its value. -/
def Performs (m : Model) (r : Resolver) (x : Run DefinitionError α) (post : α → Resolver → Prop) :
    Prop :=
  ∃ r', m.Steps r r' ∧ r'.events = r.events ++ x.events ∧
    match x.result with
    | .ok a => post a r'
    | .error err => r'.outcome = some (.error err)

namespace Performs

variable {x : Run DefinitionError α} {f : α → Run DefinitionError β} {post : α → Resolver → Prop}
  {post' : β → Resolver → Prop}

theorem pure {a : α} (h : post a r) : m.Performs r (pure a) post :=
  ⟨r, .refl, (List.append_nil _).symm, h⟩

theorem mono {post₁ : α → Resolver → Prop} (h : m.Performs r x post)
    (hpost : ∀ a r', post a r' → post₁ a r') : m.Performs r x post₁ := by
  obtain ⟨r', hsteps, hevents, hresult⟩ := h
  refine ⟨r', hsteps, hevents, ?_⟩
  cases hx : x.result with
  | error err =>
    rw [hx] at hresult
    exact hresult
  | ok a =>
    rw [hx] at hresult
    exact hpost a r' hresult

/-- Computations in sequence are performed in sequence. -/
theorem bind (h : m.Performs r x post)
    (hf : ∀ a r', x.result = .ok a → post a r' → m.Performs r' (f a) post') :
    m.Performs r (x >>= f) post' := by
  obtain ⟨r₁, hsteps, hevents, hresult⟩ := h
  cases hx : x.result with
  | error err =>
    rw [hx] at hresult
    rw [Run.bind_of_error hx]
    exact ⟨r₁, hsteps, hevents, hresult⟩
  | ok a =>
    rw [hx] at hresult
    obtain ⟨r₂, hlater, hlaterEvents, hlaterResult⟩ := hf a r₁ hx hresult
    rw [Run.bind_of_ok hx]
    refine ⟨r₂, hsteps.trans hlater, ?_, hlaterResult⟩
    rw [hlaterEvents, hevents, List.append_assoc]

/-- One step that reports an event. -/
theorem report {event : Event} {post : Unit → Resolver → Prop} (hstep : m.Step r r')
    (hevents : r'.events = r.events ++ [event]) (h : post () r') :
    m.Performs r (Run.report event) post :=
  ⟨r', .single hstep, hevents, h⟩

/-- One step that fails. -/
theorem throw {err : DefinitionError} (hstep : m.Step r r') (hevents : r'.events = r.events)
    (h : r'.outcome = some (.error err)) : m.Performs r (throw err) post :=
  ⟨r', .single hstep, hevents.trans (List.append_nil _).symm, h⟩

end Performs

/-! ## The machine visits -/

/-- An entry that is found is compiled in one step, and waits from there on. -/
theorem performs_compile {e : Entry} (hnew : r.CallsNew id rest) (he : m.find? id = some e) :
    m.Performs r (e.compile m) fun d r' =>
      r'.Ready (r.inProgress ++ [id]) r.progress d.dependencies ∧
        r'.frames = ⟨id, d, rest⟩ :: r.frames ∧ r'.roots = r.roots := by
  cases hresult : (e.compile m).result with
  | error err =>
    refine ⟨_, .single (.reject hnew he hresult), rfl, ?_⟩
    rw [hresult]
  | ok d =>
    refine ⟨_, .single (.enter hnew he hresult), rfl, ?_⟩
    rw [hresult]
    exact ⟨⟨hnew.1.1, addOnce_of_not_mem hnew.2.2, rfl, rfl⟩, rfl, rfl⟩

/-- A visit is performed if what it finds below is. -/
theorem performs_visit_of_below {chain : List Identifier} {p : Progress}
    (hr : r.Ready chain p (id :: rest))
    (hbelow : ∀ (e : Entry) (d : Definition) (r' : Resolver), id ∉ chain → m.find? id = some e →
      r'.Ready (chain ++ [id]) p d.dependencies →
      m.Performs r' (visitAll m (chain ++ [id]) p d.dependencies) (r'.ReturnsTo [])) :
    m.Performs r (visit m chain p id) (r.ReturnsTo rest) := by
  obtain ⟨hrunning, rfl, rfl, hpending⟩ := hr
  have hcalls : r.Calls id rest := ⟨hrunning, hpending⟩
  by_cases hemitted : id ∈ r.progress.emitted
  · rw [visit, if_pos hemitted]
    refine .bind (.report (.pass hcalls hemitted) rfl ?_) fun _ _ _ h => .pure h
    exact ⟨⟨hrunning, rfl, rfl, rfl⟩, rfl, rfl⟩
  by_cases hchain : id ∈ r.inProgress
  · rw [visit, if_neg hemitted, dif_pos hchain]
    exact .throw (.cycle hcalls hemitted hchain) rfl rfl
  have hnew : r.CallsNew id rest := ⟨hcalls, hemitted, hchain⟩
  cases he : m.find? id with
  | none =>
    rw [visit_missing hemitted hchain he]
    exact .throw (.missing hnew he) rfl rfl
  | some e =>
    rw [visit_found hemitted hchain he]
    refine .bind (performs_compile hnew he) ?_
    rintro d r₁ - ⟨hready₁, hframes₁, hroots₁⟩
    refine .bind (hbelow e d r₁ hchain he hready₁) ?_
    rintro p r₂ - ⟨hready₂, hframes₂, hroots₂⟩
    -- the entry is the last one in progress again, so it is the one that is taken off
    have hframes : r₂.frames = ⟨id, d, rest⟩ :: r.frames := hframes₂.trans hframes₁
    have hinProgress : r₂.inProgress.dropLast = r.inProgress := by
      rw [hready₂.inProgress, hready₁.inProgress, List.dropLast_concat]
    have hleave : m.Performs r₂ (Run.report (.emitting id)) fun _ r' =>
        r.ReturnsTo rest (p.emit id d) r' := by
      refine .report (.leave hready₂.outcome hready₂.pending hframes) rfl ?_
      exact ⟨⟨hready₂.outcome, hinProgress, congrArg (·.emit id d) hready₂.progress, rfl⟩, rfl,
        hroots₂.trans hroots₁⟩
    exact hleave.bind fun _ _ _ h => .pure h

/-- Visiting identifiers in turn is performed. The recursion is that of the visits themselves: a step
down adds to the entries in progress, and any other step leaves fewer identifiers. -/
theorem performs_visitAll (chain : List Identifier) (p : Progress) (ids : List Identifier)
    {r : Resolver} {rest : List Identifier} (hr : r.Ready chain p (ids ++ rest)) :
    m.Performs r (visitAll m chain p ids) (r.ReturnsTo rest) := by
  match ids, hr with
  | [], hr =>
    rw [visitAll]
    exact .pure ⟨⟨hr.outcome, rfl, hr.progress, hr.pending⟩, rfl, rfl⟩
  | id :: ids, hr =>
    rw [visitAll]
    have hvisit : m.Performs r (visit m chain p id) (r.ReturnsTo (ids ++ rest)) := by
      refine performs_visit_of_below hr fun e d r' hchain he hr' => ?_
      have hlt : m.remaining (chain ++ [id]) < m.remaining chain :=
        remaining_append_lt (mem_ids_of_find?_eq_some he) hchain
      rw [← List.append_nil d.dependencies] at hr'
      exact performs_visitAll (chain ++ [id]) p d.dependencies hr'
    refine hvisit.bind fun p' r₁ _ hr₁ => ?_
    have hready : r₁.Ready chain p' (ids ++ rest) := hr.inProgress ▸ hr₁.ready
    refine (performs_visitAll chain p' ids hready).mono fun p'' r₂ hr₂ => ?_
    exact hr₁.trans hr₂
termination_by (m.remaining chain, ids.length)

/-- A single visit is performed, and leaves the entries in progress and the calls that wait as they
were. -/
theorem performs_visit (hr : r.Ready chain p (id :: rest)) :
    m.Performs r (visit m chain p id) (r.ReturnsTo rest) := by
  refine performs_visit_of_below hr fun e d r' _ _ hr' => ?_
  rw [← List.append_nil d.dependencies] at hr'
  exact performs_visitAll (chain ++ [id]) p d.dependencies hr'

/-! ## The machine resolves -/

theorem performs_visitRoots (hr : r.Ready [] p []) (hframes : r.frames = [])
    (hroots : r.roots = roots) :
    m.Performs r (visitRoots m p roots) fun p' r' =>
      r'.Ready [] p' [] ∧ r'.frames = [] ∧ r'.roots = [] := by
  induction roots generalizing r p with
  | nil =>
    rw [visitRoots]
    exact .pure ⟨hr, hframes, hroots⟩
  | cons root roots ih =>
    rw [visitRoots]
    have hroot : m.Performs r (Run.report (.resolvingRoot root)) fun _ r' =>
        r'.Ready [] p [root] ∧ r'.frames = [] ∧ r'.roots = roots := by
      refine .report (.root hr.outcome hframes hr.pending hroots) rfl ?_
      exact ⟨⟨hr.outcome, hr.inProgress, hr.progress, rfl⟩, hframes, rfl⟩
    refine hroot.bind ?_
    rintro _ r₁ - ⟨hready₁, hframes₁, hroots₁⟩
    refine (performs_visit hready₁).bind fun p' r₂ _ hr₂ => ?_
    have hready₂ : r₂.Ready [] p' [] := hready₁.inProgress ▸ hr₂.ready
    exact ih hready₂ (hr₂.frames.trans hframes₁) (hr₂.roots.trans hroots₁)

theorem performs_resolve (m : Model) (roots : List Identifier) :
    m.Performs { roots } (m.resolve roots) fun ds r' => r'.outcome = some (.ok ds) := by
  have hstart : ({ roots } : Resolver).Ready [] {} [] := ⟨rfl, rfl, rfl, rfl⟩
  refine (performs_visitRoots hstart rfl rfl).bind ?_
  rintro p r - ⟨hready, hframes, hroots⟩
  have hfinish : m.Performs r (Run.report (.resolved p.ordered.length)) fun _ r' =>
      r'.outcome = some (.ok p.ordered) := by
    obtain ⟨hrunning, -, rfl, hpending⟩ := hready
    exact .report (.finish hrunning hframes hpending hroots) rfl rfl
  exact hfinish.bind fun _ _ _ h => .pure h

/-- A resolution comes to an end, with the events and the outcome of resolving the roots. -/
theorem exists_end (m : Model) (roots : List Identifier) : ∃ r, m.Reached roots r ∧
    r.outcome = some (m.resolve roots).result ∧ r.events = (m.resolve roots).events := by
  obtain ⟨r, hsteps, hevents, hresult⟩ := performs_resolve m roots
  refine ⟨r, hsteps, ?_, hevents⟩
  cases h : (m.resolve roots).result with
  | error err =>
    rw [h] at hresult
    exact hresult
  | ok ds =>
    rw [h] at hresult
    exact hresult

end Model

end UmlTyping
