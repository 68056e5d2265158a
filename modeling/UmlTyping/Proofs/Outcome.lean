import Mathlib.Data.List.Forall2
import Mathlib.Logic.Basic
import UmlTyping.Run

/-!
# Outcomes

What the outcome of a computation says about the outcomes of its parts. A chain of computations
succeeds exactly if each of them does with the value of the one before, and it fails exactly as the
first one that fails.

Where it does not matter which error comes out, an outcome is seen as an optional value
(`toOption`), and of that value perhaps no more than some part. Two such values may be related,
which says that both are there or neither is.
-/

namespace UmlTyping

variable {ε α β γ δ : Type}

/-! ## Outcomes in sequence -/

theorem bind_eq_ok_iff {x : Except ε α} {f : α → Except ε β} {b : β} :
    (x >>= f) = .ok b ↔ ∃ a, x = .ok a ∧ f a = .ok b := by
  constructor
  · intro h
    cases x with
    | error e => cases h
    | ok a => exact ⟨a, rfl, h⟩
  · rintro ⟨a, rfl, h⟩
    exact h

theorem bind_eq_error_iff {x : Except ε α} {f : α → Except ε β} {e : ε} :
    (x >>= f) = .error e ↔ x = .error e ∨ ∃ a, x = .ok a ∧ f a = .error e := by
  constructor
  · intro h
    cases x with
    | error e' =>
      cases h
      exact Or.inl rfl
    | ok a => exact Or.inr ⟨a, rfl, h⟩
  · rintro (rfl | ⟨a, rfl, h⟩)
    · rfl
    · exact h

theorem map_eq_ok_iff {x : Except ε α} {f : α → β} {b : β} :
    f <$> x = .ok b ↔ ∃ a, x = .ok a ∧ f a = b := by
  constructor
  · intro h
    cases x with
    | error e => cases h
    | ok a => exact ⟨a, rfl, Except.ok.inj h⟩
  · rintro ⟨a, rfl, rfl⟩
    rfl

theorem map_eq_error_iff {x : Except ε α} {f : α → β} {e : ε} :
    f <$> x = .error e ↔ x = .error e := by
  constructor
  · intro h
    cases x with
    | error e' => exact congrArg _ (Except.error.inj h)
    | ok a => cases h
  · rintro rfl
    rfl

lemma eq_ok_of_toOption {x : Except ε α} {a : α} (h : x.toOption = some a) : x = .ok a := by
  cases x with
  | error e => cases h
  | ok a' => exact congrArg _ (Option.some.inj h)

/-- What is known of a value that is there is known of the value that comes out. -/
lemma exists_of_toOption_map {x : Except ε α} {f : α → β} {b : β}
    (h : x.toOption.map f = some b) : ∃ a, x = .ok a ∧ f a = b := by
  cases x with
  | error e => cases h
  | ok a => exact ⟨a, rfl, Option.some.inj h⟩

/-- Computations in turn succeed exactly if each of them does. -/
theorem mapM_eq_ok_iff {f : α → Except ε β} {xs : List α} {ys : List β} :
    xs.mapM f = .ok ys ↔ List.Forall₂ (fun x y => f x = .ok y) xs ys := by
  induction xs generalizing ys with
  | nil =>
    rw [List.mapM_nil, List.forall₂_nil_left_iff]
    constructor
    · intro h
      exact (Except.ok.inj h).symm
    · rintro rfl
      rfl
  | cons x rest ih =>
    rw [List.mapM_cons, bind_eq_ok_iff, List.forall₂_cons_left_iff]
    constructor
    · rintro ⟨y, hy, h⟩
      rcases bind_eq_ok_iff.1 h with ⟨zs, hzs, h⟩
      exact ⟨y, zs, hy, ih.1 hzs, (Except.ok.inj h).symm⟩
    · rintro ⟨y, zs, hy, hzs, rfl⟩
      exact ⟨y, hy, bind_eq_ok_iff.2 ⟨zs, ih.2 hzs, rfl⟩⟩

/-- To restate an error gives no value and takes none away. -/
theorem mapError_eq_ok_iff {ε' : Type} {f : ε → ε'} {x : Except ε α} {a : α} :
    x.mapError f = .ok a ↔ x = .ok a := by
  cases x with
  | error e => simp [Except.mapError]
  | ok b => simp [Except.mapError]

/-! ## Outcomes without their errors -/

theorem toOption_eq_some_iff {x : Except ε α} {a : α} : x.toOption = some a ↔ x = .ok a := by
  cases x with
  | error e => simp [Except.toOption]
  | ok b => simp [Except.toOption]

lemma toOption_mapError {ε' : Type} (f : ε → ε') (x : Except ε α) :
    (x.mapError f).toOption = x.toOption := by
  cases x with
  | error e => rfl
  | ok a => rfl

lemma toOption_bind_pure (x : Except ε α) (f : α → β) :
    (x >>= fun a => pure (f a)).toOption = x.toOption.map f := by
  cases x with
  | error e => rfl
  | ok a => rfl

lemma toOption_bind {x : Except ε α} {f : α → Except ε β} {p : α → γ} {g : γ → Option β}
    (hf : ∀ a, (f a).toOption = g (p a)) : (x >>= f).toOption = (x.toOption.map p).bind g := by
  cases x with
  | error e => rfl
  | ok a => exact hf a

/-- What is seen of a computation is what is seen of its parts, if the second part makes use of
nothing else of the first. -/
lemma toOption_map_bind {x : Except ε α} {f : α → Except ε β} {p : α → γ} {q : β → δ}
    {g : γ → Option δ} (hf : ∀ a, (f a).toOption.map q = g (p a)) :
    (x >>= f).toOption.map q = (x.toOption.map p).bind g := by
  cases x with
  | error e => rfl
  | ok a => exact hf a

lemma mapM_eq_none_iff {f : α → Option β} {l : List α} : l.mapM f = none ↔ ∃ a ∈ l, f a = none := by
  induction l with
  | nil => simp
  | cons a rest ih =>
    rw [List.mapM_cons, List.exists_mem_cons_iff, ← ih]
    cases f a with
    | none => simp
    | some b =>
      cases rest.mapM f with
      | none => simp
      | some bs => simp

/-! ## Values that are related -/

section

variable {r : α → β → Prop} {q : γ → δ → Prop} {x : Option α} {y : Option β}

lemma rel_bind {f : α → Option γ} {g : β → Option δ} (h : Option.Rel r x y)
    (hfg : ∀ a b, r a b → Option.Rel q (f a) (g b)) : Option.Rel q (x.bind f) (y.bind g) := by
  cases h with
  | some hab => exact hfg _ _ hab
  | none => exact .none

lemma rel_map {f : α → γ} {g : β → δ} (h : Option.Rel r x y) (hfg : ∀ a b, r a b → q (f a) (g b)) :
    Option.Rel q (x.map f) (y.map g) := by
  cases h with
  | some hab => exact .some (hfg _ _ hab)
  | none => exact .none

lemma rel_map_self {f : α → γ} {g : α → δ} (x : Option α) (hfg : ∀ a, q (f a) (g a)) :
    Option.Rel q (x.map f) (x.map g) := by
  cases x with
  | some a => exact .some (hfg a)
  | none => exact .none

/-- Related values lead to the same if nothing depends on what the relation leaves open. -/
lemma bind_eq_of_rel {f : α → Option γ} {g : β → Option γ} (h : Option.Rel r x y)
    (hfg : ∀ a b, x = some a → r a b → f a = g b) : x.bind f = y.bind g := by
  cases h with
  | some hab => exact hfg _ _ rfl hab
  | none => rfl

end

section

variable {r : α → α → Prop} {x y z : Option α}

lemma rel_refl (hr : ∀ a, r a a) (x : Option α) : Option.Rel r x x := by
  cases x with
  | some a => exact .some (hr a)
  | none => exact .none

lemma rel_symm (hr : ∀ a b, r a b → r b a) (h : Option.Rel r x y) : Option.Rel r y x := by
  cases h with
  | some hab => exact .some (hr _ _ hab)
  | none => exact .none

lemma rel_trans (hr : ∀ a b c, r a b → r b c → r a c) (h : Option.Rel r x y)
    (h' : Option.Rel r y z) : Option.Rel r x z := by
  cases h with
  | some hab =>
    cases h' with
    | some hbc => exact .some (hr _ _ _ hab hbc)
  | none =>
    cases h' with
    | none => exact .none

end

/-! ## Runs in sequence -/

namespace Run

variable {x : Run ε α} {f : α → Run ε β}

theorem result_bind_eq_ok_iff {b : β} :
    (x >>= f).result = .ok b ↔ ∃ a, x.result = .ok a ∧ (f a).result = .ok b := by
  rw [result_bind, bind_eq_ok_iff]

theorem result_bind_eq_error_iff {e : ε} :
    (x >>= f).result = .error e ↔
      x.result = .error e ∨ ∃ a, x.result = .ok a ∧ (f a).result = .error e := by
  rw [result_bind, bind_eq_error_iff]

theorem bind_of_ok {a : α} (h : x.result = .ok a) :
    x >>= f = ⟨x.events ++ (f a).events, (f a).result⟩ := by
  obtain ⟨events, result⟩ := x
  subst h
  rfl

theorem bind_of_error {e : ε} (h : x.result = .error e) : x >>= f = ⟨x.events, .error e⟩ := by
  obtain ⟨events, result⟩ := x
  subst h
  rfl

/-- Reporting an event first changes no outcome. -/
@[simp] theorem result_report_bind (event : Event) (f : Unit → Run ε β) :
    (report event >>= f).result = (f ()).result := by
  rw [result_bind, result_report]
  rfl

end Run

end UmlTyping
