import UmlTyping.Proofs.Importing

/-!
# What is done before anything is written

A generation reads, loads, resolves and composes before it writes. Each of these may fail, the
resolution at any depth below any root, and after any number of entries that compiled. Such a
generation is not ready (`Config.Unready`), and it is never ready in part: either something stands in
its way, or there are modules to write (`Config.unready_iff_not_prepared`). So the disk is as it was
unless the writing itself is at fault.
-/

namespace UmlTyping

open Relation (TransGen)

namespace Model

variable {m : Model} {roots : List Identifier}

/-- Where no modules can be generated, something that the roots lead to has no definition or needs
itself. -/
theorem exists_fault_of_generate (hm : m.Coherent) (h : ∀ ms, (m.generate roots).result ≠ .ok ms) :
    ∃ id, m.Reachable roots id ∧ ((∃ err, m.define id = .error err) ∨ TransGen m.Needs id id) := by
  cases hresolve : (m.resolve roots).result with
  | ok ds =>
    obtain ⟨ms, hms, -⟩ := exists_generate hm hresolve
    exact absurd hms (h ms)
  | error err =>
    rcases error_of_resolve hresolve with ⟨id, hid, herr⟩ | ⟨path, -, hloop, hpath, hreachable⟩
    · exact ⟨id, hid, Or.inl ⟨err, herr⟩⟩
    · obtain ⟨id, hid, hneeds⟩ := hloop.exists_transGen hpath
      exact ⟨id, hreachable id hid, Or.inr hneeds⟩

/-- Modules are generated only of what can be defined. -/
theorem definable_of_generate {ms : Modules} (h : (m.generate roots).result = .ok ms) :
    m.Definable roots := by
  obtain ⟨ds, hds, -⟩ := Run.result_bind_eq_ok_iff.1 h
  exact definable_of_resolve hds

end Model

namespace Config

variable {c : Config} {d : Disk} {bytes : ByteArray} {ms : Modules} {err : GenerationError}

/-- Something stands in the way of a generation before there is anything to write. -/
inductive Unready (c : Config) (d : Disk) : Prop
  /-- The model cannot be read. -/
  | unreadable {fault : Disk.Fault} : d.read c.model = .error fault → Unready c d
  /-- What is read is no model. -/
  | unloadable {bytes : ByteArray} {err : ModelError} : d.read c.model = .ok bytes →
      (Model.load bytes).result = .error err → Unready c d
  /-- An entry that the roots lead to is not there, or it does not compile. -/
  | undefined {bytes : ByteArray} {m : Model} {id : Identifier} {err : DefinitionError} :
      d.read c.model = .ok bytes → (Model.load bytes).result = .ok m →
      m.Reachable c.roots id → m.define id = .error err → Unready c d
  /-- An entry that the roots lead to needs itself. -/
  | cyclic {bytes : ByteArray} {m : Model} {id : Identifier} : d.read c.model = .ok bytes →
      (Model.load bytes).result = .ok m → m.Reachable c.roots id → TransGen m.Needs id id →
      Unready c d

/-- The modules are those of the model that the disk holds. -/
def Prepared (c : Config) (d : Disk) (ms : Modules) : Prop :=
  ∃ bytes m, d.read c.model = .ok bytes ∧ (Model.load bytes).result = .ok m ∧
    (m.generate c.roots).result = .ok ms

/-! ## Ready or not -/

theorem Unready.not_prepared (h : c.Unready d) (ms : Modules) : ¬ c.Prepared d ms := by
  rintro ⟨bytes, m, hread, hload, hgenerate⟩
  obtain ⟨hcompiles, hacyclic⟩ := Model.definable_of_generate hgenerate
  cases h with
  | unreadable hfault => cases hread.symm.trans hfault
  | unloadable hread' herr =>
    cases hread.symm.trans hread'
    cases hload.symm.trans herr
  | @undefined _ _ id _ hread' hload' hreachable herr =>
    cases hread.symm.trans hread'
    cases hload.symm.trans hload'
    obtain ⟨e, definition, he, hcompile⟩ := hcompiles id hreachable
    have hdefined : m.define id = .ok definition := Model.define_eq_ok_iff.2 ⟨e, he, hcompile⟩
    cases hdefined.symm.trans herr
  | @cyclic _ _ id hread' hload' hreachable hneeds =>
    cases hread.symm.trans hread'
    cases hload.symm.trans hload'
    exact hacyclic id hreachable hneeds

/-- If nothing stands in the way, there are modules to write. -/
theorem unready_iff_not_prepared : c.Unready d ↔ ¬ ∃ ms, c.Prepared d ms := by
  constructor
  · rintro h ⟨ms, hms⟩
    exact h.not_prepared ms hms
  · intro hnone
    cases hread : d.read c.model with
    | error fault => exact .unreadable hread
    | ok bytes =>
      cases hload : (Model.load bytes).result with
      | error err => exact .unloadable hread hload
      | ok m =>
        have hm : m.IsLoaded := ⟨bytes, hload⟩
        have hgenerate : ∀ ms, (m.generate c.roots).result ≠ .ok ms :=
          fun ms hms => hnone ⟨ms, bytes, m, hread, hload, hms⟩
        obtain ⟨id, hid, ⟨err, herr⟩ | hneeds⟩ :=
          Model.exists_fault_of_generate hm.coherent hgenerate
        · exact .undefined hread hload hid herr
        · exact .cyclic hread hload hid hneeds

/-! ## The disk -/

theorem generate_eq_ok_iff : (c.generate bytes).result = .ok ms ↔
    ∃ m, (Model.load bytes).result = .ok m ∧ (m.generate c.roots).result = .ok ms := by
  unfold generate
  rw [Run.result_report_bind, Run.result_bind_eq_ok_iff]
  simp only [Run.result_mapError, mapError_eq_ok_iff]

theorem prepared_iff : c.Prepared d ms ↔
    ∃ bytes, d.read c.model = .ok bytes ∧ (c.generate bytes).result = .ok ms := by
  unfold Prepared
  refine exists_congr fun bytes => ?_
  rw [exists_and_left, generate_eq_ok_iff]

/-- A generation without modules to write leaves the disk alone. -/
theorem run_of_not_prepared (h : ¬ ∃ ms, c.Prepared d ms) :
    (c.run d).1 = d ∧ ∃ err, (c.run d).2.result = .error err := by
  unfold run
  cases hread : d.read c.model with
  | error fault => exact ⟨rfl, .disk fault, rfl⟩
  | ok bytes =>
    dsimp only
    cases hgenerate : (c.generate bytes).result with
    | error err => exact ⟨rfl, err, hgenerate⟩
    | ok ms => exact absurd ⟨ms, prepared_iff.2 ⟨bytes, hread, hgenerate⟩⟩ h

/-- Modules that are prepared are written, and what comes of a generation is what comes of that. -/
theorem run_of_prepared (h : c.Prepared d ms) : (c.run d).1 = (ms.write c.output d).1 ∧
    (c.run d).2.result =
      (ms.write c.output d).2.result.mapError .disk >>= fun _ => .ok ms := by
  obtain ⟨bytes, hread, hgenerate⟩ := prepared_iff.1 h
  unfold run
  rw [hread]
  dsimp only
  rw [hgenerate]
  refine ⟨rfl, ?_⟩
  rw [Run.result_bind, hgenerate]
  show Run.result (Run.mapError GenerationError.disk _ >>= fun _ => _) = _
  rw [Run.result_bind, Run.result_mapError]
  rfl

/-- A generation writes only when all modules are there. As long as something stands in its way it
leaves the disk as it was; if nothing does, only the writing can fail. What it gives are the modules
of the model that was on the disk. -/
theorem run_preparesFirst (c : Config) (d : Disk) :
    (c.Unready d → (c.run d).1 = d ∧ ∃ err, (c.run d).2.result = .error err) ∧
      (∀ ms, (c.run d).2.result = .ok ms → c.Prepared d ms) ∧
      (¬ c.Unready d → ∃ ms, c.Prepared d ms ∧ (c.run d).1 = (ms.write c.output d).1 ∧
        ((c.run d).2.result = .ok ms ∨ ∃ fault, (c.run d).2.result = .error (.disk fault))) := by
  have hwritten : ∀ ms, c.Prepared d ms → (c.run d).2.result = .ok ms ∨
      ∃ fault, (c.run d).2.result = .error (.disk fault) := by
    intro ms hms
    rw [(run_of_prepared hms).2]
    cases (ms.write c.output d).2.result with
    | ok _ => exact Or.inl rfl
    | error fault => exact Or.inr ⟨fault, rfl⟩
  refine ⟨fun h => run_of_not_prepared (unready_iff_not_prepared.1 h), ?_, ?_⟩
  · intro ms hok
    by_cases hprepared : ∃ ms', c.Prepared d ms'
    · obtain ⟨ms', hms'⟩ := hprepared
      rcases hwritten ms' hms' with h | ⟨fault, h⟩
      · cases hok.symm.trans h
        exact hms'
      · cases hok.symm.trans h
    · obtain ⟨-, err, herr⟩ := run_of_not_prepared hprepared
      cases hok.symm.trans herr
  · intro hready
    rw [unready_iff_not_prepared, not_not] at hready
    obtain ⟨ms, hms⟩ := hready
    exact ⟨ms, hms, (run_of_prepared hms).1, hwritten ms hms⟩

end Config

end UmlTyping
