import UmlTyping.Event

/-!
# Runs

A `Run` is what comes of a computation that reports events and may fail: the events in the order in
which they were reported, and the outcome. Reporting never changes an outcome, so a statement about
outcomes needs no more than `result`, which is a map of monads to `Except`.
-/

namespace UmlTyping

/-- The events of a computation and its outcome. -/
structure Run (ε α : Type) where
  /-- What was reported, the first event first. -/
  events : List Event
  /-- The outcome. -/
  result : Except ε α

namespace Run

variable {ε α β : Type}

/-- The computation that reports an event and does nothing else. -/
def report (e : Event) : Run ε Unit := ⟨[e], .ok ()⟩

/-- The computation with an outcome that reports nothing. -/
def ofExcept (r : Except ε α) : Run ε α := ⟨[], r⟩

/-- Goes on with the value of a computation, if it has one. -/
def andThen (x : Run ε α) (f : α → Run ε β) : Run ε β :=
  match x.result with
  | .ok a => ⟨x.events ++ (f a).events, (f a).result⟩
  | .error e => ⟨x.events, .error e⟩

instance : Monad (Run ε) where
  pure a := ⟨[], .ok a⟩
  bind := andThen

instance : MonadExceptOf ε (Run ε) where
  throw e := ⟨[], .error e⟩
  tryCatch x handle :=
    match x.result with
    | .ok _ => x
    | .error e => ⟨x.events ++ (handle e).events, (handle e).result⟩

instance : MonadLift (Except ε) (Run ε) := ⟨ofExcept⟩

/-- The same computation with its failure restated. -/
def mapError {ε' : Type} (f : ε → ε') (x : Run ε α) : Run ε' α :=
  ⟨x.events, x.result.mapError f⟩

@[simp] theorem result_pure (a : α) : (pure a : Run ε α).result = .ok a := rfl

@[simp] theorem result_throw (e : ε) : (throw e : Run ε α).result = .error e := rfl

@[simp] theorem result_report (e : Event) : (report e : Run ε Unit).result = .ok () := rfl

@[simp] theorem result_ofExcept (r : Except ε α) : (ofExcept r).result = r := rfl

@[simp] theorem result_mapError {ε' : Type} (f : ε → ε') (x : Run ε α) :
    (x.mapError f).result = x.result.mapError f := rfl

@[simp] theorem result_bind (x : Run ε α) (f : α → Run ε β) :
    (x >>= f).result = x.result >>= fun a => (f a).result := by
  obtain ⟨events, result⟩ := x
  cases result <;> rfl

end Run

end UmlTyping
