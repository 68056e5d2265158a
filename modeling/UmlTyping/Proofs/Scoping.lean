import Mathlib.Data.List.Basic
import UmlTyping.Xml.Scopes

/-!
# Scopes that agree on absence

Whether an attribute marks an element as absent depends on which qualifiers are bound to the
instance namespace. Bindings may outlive the elements that make them, so what a tag binds can show
far behind it. As long as no tag inside the outermost element changes which qualifiers these are,
that makes no difference: all scopes are then those of the outermost tag with harmless levels in
front (`Over`), and agree with them on what is absent (`marksAbsent_eq`).

Whoever reads an element hands on scopes that follow the ones given (`Follows`). Levels may be left
in front of these, but none of them is lost.
-/

namespace UmlTyping.Xml

namespace Scopes

/-- The qualifier is bound to the instance namespace. -/
def MarksBy (s : Scopes) (qualifier : String) : Prop :=
  s.bound? qualifier = some instanceNamespace.toList

instance (s : Scopes) (qualifier : String) : Decidable (s.MarksBy qualifier) :=
  inferInstanceAs (Decidable (_ = _))

end Scopes

/-- The binding is to the instance namespace exactly if its qualifier is bound to that already. -/
def Binding.isHarmless (base : Scopes) (b : Binding) : Bool :=
  decide (b.value = instanceNamespace.toList ↔ base.MarksBy b.qualifier)

/-- The tag makes no difference to what is absent further on. -/
def Tag.isHarmless (base : Scopes) (tag : Tag) : Bool := tag.bindings.all (·.isHarmless base)

namespace Scopes

variable {base s s' s'' : Scopes} {tag : Tag} {levels : List (List Binding)}

/-- All bindings of some levels are harmless. -/
def Harmless (base : Scopes) (levels : List (List Binding)) : Prop :=
  ∀ level ∈ levels, level.all (·.isHarmless base) = true

/-- The scopes have harmless levels in front of others. -/
def Over (base s : Scopes) : Prop :=
  ∃ levels, s.levels = levels ++ base.levels ∧ Harmless base levels

/-- The scopes have harmless levels in front of earlier ones. -/
structure Follows (base s s' : Scopes) : Prop where
  levels : ∃ levels, s'.levels = levels ++ s.levels ∧ Harmless base levels
  settled : s'.settled = s.settled

lemma Harmless.append {levels' : List (List Binding)} (h : Harmless base levels)
    (h' : Harmless base levels') : Harmless base (levels ++ levels') :=
  fun level hlevel => (List.mem_append.1 hlevel).elim (h level) (h' level)

theorem Over.refl (base : Scopes) : base.Over base := ⟨[], rfl, List.forall_mem_nil _⟩

theorem Follows.refl (base s : Scopes) : base.Follows s s :=
  ⟨⟨[], rfl, List.forall_mem_nil _⟩, rfl⟩

theorem Follows.trans (h : base.Follows s s') (h' : base.Follows s' s'') : base.Follows s s'' := by
  obtain ⟨levels, heq, hlevels⟩ := h.levels
  obtain ⟨levels', heq', hlevels'⟩ := h'.levels
  refine ⟨⟨levels' ++ levels, ?_, hlevels'.append hlevels⟩, h'.settled.trans h.settled⟩
  rw [heq', heq, List.append_assoc]

theorem Over.follows (h : base.Over s) (h' : base.Follows s s') : base.Over s' := by
  obtain ⟨levels, heq, hlevels⟩ := h
  obtain ⟨levels', heq', hlevels'⟩ := h'.levels
  refine ⟨levels' ++ levels, ?_, hlevels'.append hlevels⟩
  rw [heq', heq, List.append_assoc]

/-! ## Absence -/

/-- Harmless levels bind nothing else to the instance namespace, and hide nothing that is. -/
theorem marksBy_iff (h : base.Over s) (qualifier : String) :
    s.MarksBy qualifier ↔ base.MarksBy qualifier := by
  obtain ⟨levels, heq, hlevels⟩ := h
  unfold MarksBy bound?
  rw [heq]
  clear heq
  induction levels with
  | nil => rfl
  | cons level levels ih =>
    rw [Harmless, List.forall_mem_cons] at hlevels
    rw [List.cons_append, List.findSome?_cons]
    cases hfind : level.reverse.find? (·.qualifier = qualifier) with
    | none => exact ih hlevels.2
    | some b =>
      -- the binding that is found says of its qualifier what was known of it
      have hmem : b ∈ level := List.mem_reverse.1 (List.mem_of_find?_eq_some hfind)
      have hqualifier : b.qualifier = qualifier := by
        simpa using List.find?_some hfind
      have hharmless := of_decide_eq_true (List.all_eq_true.1 hlevels.1 b hmem)
      rw [hqualifier] at hharmless
      exact Option.some_inj.trans hharmless

theorem marksAbsent_eq (h : base.Over s) (tag : Tag) :
    s.marksAbsent tag = base.marksAbsent tag := by
  have hmarks : ∀ qualifier, decide (s.bound? qualifier = some instanceNamespace.toList) =
      decide (base.bound? qualifier = some instanceNamespace.toList) :=
    fun qualifier => decide_eq_decide.2 (marksBy_iff h qualifier)
  unfold marksAbsent
  simp only [hmarks]

/-! ## Reading on -/

@[simp] lemma settled_enter (s : Scopes) (tag : Tag) : (s.enter tag).settled = s.settled := by
  unfold enter
  split <;> rfl

@[simp] lemma settled_leave (s : Scopes) : s.leave.settled = s.settled := by
  unfold leave
  split <;> rfl

theorem follows_enter (h : tag.isHarmless base = true) (s : Scopes) :
    base.Follows s (s.enter tag) := by
  refine ⟨?_, settled_enter s tag⟩
  unfold enter
  split
  · exact (Follows.refl base s).levels
  · exact ⟨[tag.bindings], rfl, List.forall_mem_singleton.2 h⟩

/-- If content starts with a tag, that is harmless. -/
def HarmlessAhead (base : Scopes) : Content → Prop
  | .element tag _ _ => tag.isHarmless base = true
  | _ => True

theorem follows_ahead {c : Content} (h : HarmlessAhead base c) (s : Scopes) :
    base.Follows s (s.ahead c) := by
  cases c with
  | element tag inner rest => exact follows_enter h s
  | finished => exact .refl base s
  | broken => exact .refl base s
  | declaration rest => exact .refl base s
  | text content rest => exact .refl base s

theorem follows_skip {inner : Content} (htag : tag.isHarmless base = true)
    (h : HarmlessAhead base inner) (s : Scopes) : base.Follows s (s.skip tag inner) := by
  have hinside : base.Follows s ((s.enter tag).ahead inner) :=
    (follows_enter htag s).trans (follows_ahead h _)
  cases inner with
  | finished => exact .refl base s
  | broken => exact hinside
  | declaration rest => exact hinside
  | text content rest => exact hinside
  | element tag' inner' rest => exact hinside

/-- The end tag drops one level, be it that of its own start tag or one left in front. -/
theorem Follows.leave (htag : tag.isHarmless base = true) (h : base.Follows (s.enter tag) s') :
    base.Follows s s'.leave := by
  have hsettled : s'.settled = s.settled := h.settled.trans (settled_enter s tag)
  refine ⟨?_, (settled_leave s').trans hsettled⟩
  obtain ⟨levels, heq, hlevels⟩ := h.levels
  unfold enter at heq
  unfold Scopes.leave
  rw [hsettled]
  by_cases hread : s.settled = true
  · -- scopes that are settled do not move
    rw [if_pos hread] at heq ⊢
    exact ⟨levels, heq, hlevels⟩
  · rw [if_neg hread] at heq ⊢
    cases levels with
    | nil => exact ⟨[], congrArg List.tail heq, List.forall_mem_nil _⟩
    | cons level levels =>
      -- a level that was left in front is dropped, and that of the start tag stays in its place
      rw [Harmless, List.forall_mem_cons] at hlevels
      refine ⟨levels ++ [tag.bindings], ?_, ?_⟩
      · rw [List.append_assoc]
        exact congrArg List.tail heq
      · exact Harmless.append hlevels.2 (List.forall_mem_singleton.2 htag)

/-- What is kept of an element is read with scopes from behind its end. -/
theorem Over.settle {after : Content} (hs : base.Over s) (htag : tag.isHarmless base = true)
    (h : base.Follows (s.enter tag) s') (hafter : HarmlessAhead base after) :
    base.Over (s'.settle after) := by
  obtain ⟨levels, heq, hlevels⟩ := (hs.follows (h.leave htag)).follows (follows_ahead hafter _)
  exact ⟨levels, heq, hlevels⟩

end Scopes

end UmlTyping.Xml
