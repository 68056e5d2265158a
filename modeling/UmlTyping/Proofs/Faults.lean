import Mathlib.Data.List.Induction
import Mathlib.Data.List.Nodup
import UmlTyping.Proofs.Outcome

/-!
# First faults

A computation that checks its input stops at the first fault that it meets. `FailsFirst` says so of a
computation and the faults of its input, listed in the order in which the checks are made: it fails
exactly if there is a fault, and then with the first one. The list is that of all faults, not only
of the one that is reported, so it can be given without regard to where a computation stops.

Computations in sequence have their faults in sequence (`FailsFirst.bind`). Where an element of a
list is checked against those before it, its faults are functions of these as well (`inTurn`), and
no state of the computation enters into them (`failsFirst_foldlM`).
-/

namespace UmlTyping

variable {ε α β σ κ : Type}

/-- The computation fails exactly if there is a fault, and with the first one. -/
def FailsFirst (x : Except ε α) (faults : List ε) : Prop :=
  ∀ e, x = .error e ↔ faults.head? = some e

/-- The faults of the elements of a list, each seen with those before it. -/
def inTurn (faults : List α → α → List ε) (earlier : List α) : List α → List ε
  | [] => []
  | a :: rest => faults earlier a ++ inTurn faults (earlier ++ [a]) rest

/-! ## Computations and their faults -/

theorem failsFirst_ok (a : α) : FailsFirst (.ok a : Except ε α) [] := by
  intro e
  simp

theorem failsFirst_error (e : ε) (later : List ε) :
    FailsFirst (.error e : Except ε α) (e :: later) := by
  intro e'
  simp

namespace FailsFirst

variable {x : Except ε α} {f : α → Except ε β} {fs gs : List ε}

/-- Without faults there is a value, and with one there is none. -/
theorem exists_ok_iff (h : FailsFirst x fs) : (∃ a, x = .ok a) ↔ fs = [] := by
  cases x with
  | ok a =>
    have hnone : fs.head? = none := by
      rw [Option.eq_none_iff_forall_ne_some]
      intro e he
      cases (h e).2 he
    exact ⟨fun _ => List.head?_eq_none_iff.1 hnone, fun _ => ⟨a, rfl⟩⟩
  | error e =>
    have hsome : fs.head? = some e := (h e).1 rfl
    constructor
    · rintro ⟨a, ha⟩
      cases ha
    · rintro rfl
      cases hsome

theorem eq_nil (h : FailsFirst x fs) {a : α} (hx : x = .ok a) : fs = [] :=
  h.exists_ok_iff.1 ⟨a, hx⟩

/-- What is done with a value is checked after the value is there. -/
theorem bind (hx : FailsFirst x fs) (hf : ∀ a, x = .ok a → FailsFirst (f a) gs) :
    FailsFirst (x >>= f) (fs ++ gs) := by
  intro e
  cases hvalue : x with
  | ok a =>
    rw [hx.eq_nil hvalue, List.nil_append]
    exact hf a hvalue e
  | error e' =>
    have hfirst : fs.head? = some e' := (hx e').1 hvalue
    rw [List.head?_append, hfirst, Option.some_or, Option.some.injEq]
    show (Except.error e' : Except ε β) = .error e ↔ e' = e
    rw [Except.error.injEq]

theorem map (hx : FailsFirst x fs) (f : α → β) : FailsFirst (f <$> x) fs := by
  intro e
  rw [map_eq_error_iff]
  exact hx e

end FailsFirst

/-- A list is checked element by element. -/
theorem failsFirst_mapM {f : α → Except ε β} {faults : α → List ε}
    (hf : ∀ a, FailsFirst (f a) (faults a)) (xs : List α) :
    FailsFirst (xs.mapM f) (xs.flatMap faults) := by
  induction xs with
  | nil => exact failsFirst_ok []
  | cons a rest ih =>
    rw [List.mapM_cons, List.flatMap_cons]
    refine (hf a).bind fun b _ => ?_
    rw [← List.append_nil (rest.flatMap faults)]
    exact ih.bind fun bs _ => failsFirst_ok (b :: bs)

/-- A loop is checked step by step. What it has come to by the time of a step matters to the faults
of the step only as far as the elements before it tell. -/
theorem failsFirst_foldlM {step : σ → α → Except ε σ} {faults : List α → α → List ε}
    (inv : σ → List α → Prop)
    (hstep : ∀ s earlier a, inv s earlier → FailsFirst (step s a) (faults earlier a))
    (hinv : ∀ s earlier a s', inv s earlier → step s a = .ok s' → inv s' (earlier ++ [a]))
    {s : σ} {earlier : List α} (h : inv s earlier) (xs : List α) :
    FailsFirst (xs.foldlM step s) (inTurn faults earlier xs) := by
  induction xs generalizing s earlier with
  | nil => exact failsFirst_ok s
  | cons a rest ih =>
    rw [List.foldlM_cons, inTurn]
    exact (hstep s earlier a h).bind fun s' hs' => ih (hinv s earlier a s' h hs')

/-! ## Faults in turn -/

/-- Where the elements before play no part, the faults of a list are those of its elements. -/
theorem inTurn_const (faults : α → List ε) (earlier xs : List α) :
    inTurn (fun _ => faults) earlier xs = xs.flatMap faults := by
  induction xs generalizing earlier with
  | nil => rfl
  | cons a rest ih => rw [inTurn, ih, List.flatMap_cons]

/-- No element is at fault, seen with those before it. -/
theorem inTurn_eq_nil_iff {faults : List α → α → List ε} {earlier xs : List α} :
    inTurn faults earlier xs = [] ↔
      ∀ before a after, xs = before ++ a :: after → faults (earlier ++ before) a = [] := by
  induction xs generalizing earlier with
  | nil => simp [inTurn]
  | cons b rest ih =>
    rw [inTurn, List.append_eq_nil_iff, ih]
    constructor
    · rintro ⟨hb, hrest⟩ before a after heq
      cases before with
      | nil =>
        cases heq
        rw [List.append_nil]
        exact hb
      | cons c before =>
        cases heq
        have := hrest before a after rfl
        rwa [List.append_assoc, List.singleton_append] at this
    · intro h
      constructor
      · have := h [] b rest rfl
        rwa [List.append_nil] at this
      · rintro before a after rfl
        have := h (b :: before) a after rfl
        rwa [List.append_assoc, List.singleton_append]

/-- Keys are distinct exactly if none of them is that of an element before. -/
theorem nodup_map_iff_not_mem_before {key : α → κ} {xs : List α} :
    (xs.map key).Nodup ↔
      ∀ before a after, xs = before ++ a :: after → key a ∉ before.map key := by
  constructor
  · rintro h before a after rfl
    rw [List.map_append, List.map_cons] at h
    have hapart := (List.nodup_append.1 h).2.2
    intro hmem
    exact hapart (key a) hmem (key a) List.mem_cons_self rfl
  · intro h
    induction xs using List.reverseRecOn with
    | nil => exact List.nodup_nil
    | append_singleton xs a ih =>
      rw [List.map_append, List.map_singleton, List.nodup_append]
      refine ⟨?_, List.nodup_singleton _, ?_⟩
      · apply ih
        rintro before b after rfl
        exact h before b (after ++ [a]) (by simp)
      · -- the last key is none of those before
        rintro k hk _ hlast rfl
        rw [List.mem_singleton] at hlast
        exact h xs a [] rfl (hlast ▸ hk)

/-- If an element is asked for what it says itself, and for a key that none has before it, nothing is
wrong with a list exactly if nothing is wrong with its elements and their keys are distinct. -/
theorem inTurn_eq_nil_iff_nodup {faults : List α → α → List ε} {own : α → Prop} {key : α → κ}
    (h : ∀ earlier a, faults earlier a = [] ↔ own a ∧ key a ∉ earlier.map key) {xs : List α} :
    inTurn faults [] xs = [] ↔ (∀ a ∈ xs, own a) ∧ (xs.map key).Nodup := by
  rw [inTurn_eq_nil_iff, nodup_map_iff_not_mem_before]
  simp only [List.nil_append, h]
  constructor
  · intro hall
    refine ⟨fun a ha => ?_, fun before a after heq => (hall before a after heq).2⟩
    obtain ⟨before, after, heq⟩ := List.append_of_mem ha
    exact (hall before a after heq).1
  · rintro ⟨hown, hkeys⟩ before a after heq
    exact ⟨hown a (heq ▸ by simp), hkeys before a after heq⟩

end UmlTyping
