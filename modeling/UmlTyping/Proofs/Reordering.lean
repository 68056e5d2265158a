import Mathlib.Data.List.Perm.Basic
import UmlTyping.Xml.Content

/-!
# The order of siblings

Two contents may hold the same tree of elements but for the order in which siblings stand, at any
depth (`Content.Reordered`). What stands between elements is no part of the tree. Two kinds of
elements keep their order among siblings of the same kind, since it means something: the attributes
of a record and the literals of an enumeration.

The relation is generated by exchanging neighbours. All other arrangements are reached in this way
(`reordered_of_perm`), and siblings are never lost, added or taken apart (`Reordered.perm_named`).
-/

namespace UmlTyping.Xml

/-- The local names of elements whose order among siblings counts. -/
def orderedNames : List String := ["ownedAttribute", "ownedLiteral"]

namespace Tag

variable {t t' t'' : Tag}

/-- The tags have one name and the same attributes, with the same mistakes among them. -/
structure SaysSame (t t' : Tag) : Prop where
  name : t.name = t'.name
  findings : t.findings = t'.findings
  attributes : t.attributes = t'.attributes

/-- Siblings with these tags may stand in either order. -/
def MaySwap (t t' : Tag) : Prop :=
  localPart t.name = localPart t'.name → localPart t.name ∉ orderedNames

instance (t t' : Tag) : Decidable (t.MaySwap t') := inferInstanceAs (Decidable (_ → _))

lemma SaysSame.refl (t : Tag) : t.SaysSame t := ⟨rfl, rfl, rfl⟩

lemma SaysSame.symm (h : t.SaysSame t') : t'.SaysSame t :=
  ⟨h.name.symm, h.findings.symm, h.attributes.symm⟩

lemma SaysSame.trans (h : t.SaysSame t') (h' : t'.SaysSame t'') : t.SaysSame t'' :=
  ⟨h.name.trans h'.name, h.findings.trans h'.findings, h.attributes.trans h'.attributes⟩

end Tag

namespace Content

/-- The elements of the two contents make up the same tree, but for the order of siblings. -/
inductive Reordered : Content → Content → Prop
  | finished : Reordered .finished .finished
  | broken : Reordered .broken .broken
  | declaration (rest : Content) : Reordered (.declaration rest) rest
  | text (content : Option String) (rest : Content) : Reordered (.text content rest) rest
  | element {t t' : Tag} {inner inner' rest rest' : Content} : t.SaysSame t' →
      Reordered inner inner' → Reordered rest rest' →
      Reordered (.element t inner rest) (.element t' inner' rest')
  | swap {t t' : Tag} (inner inner' rest : Content) : t.MaySwap t' →
      Reordered (.element t inner (.element t' inner' rest))
        (.element t' inner' (.element t inner rest))
  | symm {c c' : Content} : Reordered c c' → Reordered c' c
  | trans {c c' c'' : Content} : Reordered c c' → Reordered c' c'' → Reordered c c''

variable {c c' : Content} {name : String}

theorem Reordered.refl (c : Content) : c.Reordered c := by
  induction c with
  | finished => exact .finished
  | broken => exact .broken
  | declaration rest _ => exact (Reordered.declaration rest).trans (.symm (.declaration rest))
  | text content rest _ => exact (Reordered.text content rest).trans (.symm (.text content rest))
  | element tag inner rest ihinner ihrest => exact .element (.refl tag) ihinner ihrest

theorem Reordered.isComplete_eq (h : c.Reordered c') : c.isComplete = c'.isComplete := by
  induction h with
  | finished => rfl
  | broken => rfl
  | declaration => rfl
  | text => rfl
  | element _ _ _ ihinner ihrest => rw [isComplete, isComplete, ihinner, ihrest]
  | swap inner inner' rest _ =>
    simp only [isComplete]
    exact Bool.and_left_comm _ _ _
  | symm _ ih => exact ih.symm
  | trans _ _ ih ih' => exact ih.trans ih'

/-! ## Siblings -/

/-- The elements that stand directly in some content, in document order. -/
def elements : Content → List (Tag × Content)
  | finished => []
  | broken => []
  | declaration rest => rest.elements
  | text _ rest => rest.elements
  | element tag inner rest => (tag, inner) :: rest.elements

/-- The elements of a local name that stand directly in some content, in document order. -/
def named (name : String) (c : Content) : List (Tag × Content) :=
  c.elements.filter (localPart ·.1.name = name)

theorem named_element (tag : Tag) (inner rest : Content) :
    named name (.element tag inner rest) =
      if localPart tag.name = name then (tag, inner) :: rest.named name else rest.named name := by
  rw [named, elements, List.filter_cons]
  simp only [decide_eq_true_eq]
  rfl

/-- One element is written as the other, but for the order of what stands inside. -/
def SameElement (x y : Tag × Content) : Prop := x.1.SaysSame y.1 ∧ x.2.Reordered y.2

lemma SameElement.refl (x : Tag × Content) : SameElement x x := ⟨.refl x.1, .refl x.2⟩

lemma SameElement.symm {x y : Tag × Content} (h : SameElement x y) : SameElement y x :=
  ⟨h.1.symm, h.2.symm⟩

lemma SameElement.trans {x y z : Tag × Content} (h : SameElement x y) (h' : SameElement y z) :
    SameElement x z :=
  ⟨h.1.trans h'.1, h.2.trans h'.2⟩

/-- What depends on the trees of siblings alone is found in another order. -/
theorem Reordered.perm_elements {α : Type} {f : Tag × Content → α}
    (hf : ∀ x y, SameElement x y → f x = f y) (h : c.Reordered c') :
    (c.elements.map f).Perm (c'.elements.map f) := by
  induction h with
  | finished => exact .refl _
  | broken => exact .refl _
  | declaration => exact .refl _
  | text => exact .refl _
  | @element t t' inner inner' _ _ htag hinner _ _ ih =>
    have heq : f (t, inner) = f (t', inner') := hf _ _ ⟨htag, hinner⟩
    rw [elements, elements, List.map_cons, List.map_cons, heq]
    exact ih.cons _
  | swap inner inner' rest _ => exact .swap _ _ _
  | symm _ ih => exact ih.symm
  | trans _ _ ih ih' => exact ih.trans ih'

/-- The siblings of one name are reordered among themselves. -/
theorem Reordered.perm_named {α : Type} {f : Tag × Content → α}
    (hf : ∀ x y, SameElement x y → f x = f y) (h : c.Reordered c') :
    ((c.named name).map f).Perm ((c'.named name).map f) := by
  have hpairs : ∀ x y, SameElement x y →
      (localPart x.1.name, f x) = (localPart y.1.name, f y) := by
    intro x y hxy
    rw [hxy.1.name, hf x y hxy]
  have hview : ∀ c : Content, (c.named name).map f =
      ((c.elements.map fun x => (localPart x.1.name, f x)).filter (·.1 = name)).map (·.2) := by
    intro c
    rw [List.filter_map, List.map_map]
    rfl
  rw [hview, hview]
  exact ((h.perm_elements hpairs).filter _).map _

/-- The one thing in a list. -/
def only? {α : Type} : List α → Option α
  | [a] => some a
  | _ => none

lemma only?_eq_some_iff {α : Type} {l : List α} {a : α} : only? l = some a ↔ l = [a] := by
  match l with
  | [] => simp [only?]
  | [b] => simp [only?]
  | _ :: _ :: _ => simp [only?]

/-- The only element stays the only one. -/
lemma rel_only? {l l' : List (Tag × Content)}
    (h : (l.map SameElement).Perm (l'.map SameElement)) :
    Option.Rel SameElement (only? l) (only? l') := by
  cases hl : only? l with
  | some x =>
    rw [only?_eq_some_iff] at hl
    subst hl
    obtain ⟨y, rfl, hy⟩ := List.map_eq_singleton_iff.1 (List.singleton_perm.1 h).symm
    have hxy : SameElement x y := hy ▸ SameElement.refl y
    exact .some hxy
  | none =>
    cases hl' : only? l' with
    | some y =>
      rw [only?_eq_some_iff] at hl'
      subst hl'
      obtain ⟨x, rfl, -⟩ := List.map_eq_singleton_iff.1 (List.perm_singleton.1 h)
      cases hl
    | none => exact .none

/-- An element stands for all those that are the same. -/
lemma SameElement.class_eq {x y : Tag × Content} (h : SameElement x y) :
    SameElement x = SameElement y := by
  funext z
  exact propext ⟨h.symm.trans, h.trans⟩

theorem Reordered.rel_only_element (h : c.Reordered c') :
    Option.Rel SameElement (only? c.elements) (only? c'.elements) :=
  rel_only? (h.perm_elements fun _ _ => SameElement.class_eq)

theorem Reordered.rel_only_named (h : c.Reordered c') (name : String) :
    Option.Rel SameElement (only? (c.named name)) (only? (c'.named name)) :=
  rel_only? (h.perm_named fun _ _ => SameElement.class_eq)

/-! ## Arranging siblings -/

/-- The content that consists of elements. -/
def ofElements (l : List (Tag × Content)) : Content :=
  l.foldr (fun x rest => .element x.1 x.2 rest) .finished

lemma reordered_single {x x' : Tag × Content} (h : SameElement x x') :
    (ofElements [x]).Reordered (ofElements [x']) :=
  .element h.1 h.2 .finished

/-- Two siblings change places. -/
lemma reordered_pair {x x' y y' : Tag × Content} (h : x.1.MaySwap y.1) (hx : SameElement x x')
    (hy : SameElement y y') : (ofElements [x, y]).Reordered (ofElements [y', x']) :=
  .trans (.swap x.2 y.2 .finished h) (.element hy.1 hy.2 (.element hx.1 hx.2 .finished))

lemma reordered_ofElements (h : c.isComplete = true) : c.Reordered (ofElements c.elements) := by
  induction c with
  | finished => exact .finished
  | broken => cases h
  | declaration rest ih => exact (Reordered.declaration rest).trans (ih h)
  | text content rest ih => exact (Reordered.text content rest).trans (ih h)
  | element tag inner rest _ ih =>
    rw [isComplete, Bool.and_eq_true] at h
    exact .element (.refl tag) (.refl inner) (ih h.2)

/-- An element comes to stand in front of those that it may be swapped with. -/
lemma reordered_front {x : Tag × Content} {before after : List (Tag × Content)}
    (h : ∀ y ∈ before, x.1.MaySwap y.1) :
    (ofElements (x :: (before ++ after))).Reordered (ofElements (before ++ x :: after)) := by
  induction before with
  | nil => exact .refl _
  | cons y before ih =>
    rw [List.forall_mem_cons] at h
    exact (Reordered.swap x.2 y.2 _ h.1).trans (.element (.refl y.1) (.refl y.2) (ih h.2))

lemma reordered_ofElements_of_perm {l l' : List (Tag × Content)} (h : l.Perm l')
    (hordered : ∀ n ∈ orderedNames,
      l.filter (localPart ·.1.name = n) = l'.filter (localPart ·.1.name = n)) :
    (ofElements l).Reordered (ofElements l') := by
  induction l generalizing l' with
  | nil =>
    rw [List.nil_perm.1 h]
    exact .refl _
  | cons x rest ih =>
    -- the first place where `x` stands in the other list
    obtain ⟨before, after, rfl, hfirst⟩ := List.eq_append_cons_of_mem (h.subset List.mem_cons_self)
    have hrest : rest.Perm (before ++ after) := (h.trans List.perm_middle).cons_inv
    have hswap : ∀ y ∈ before, x.1.MaySwap y.1 := by
      intro y hy hname hmem
      have hfilter := hordered _ hmem
      rw [List.filter_cons_of_pos (by simp), List.filter_append] at hfilter
      -- what is first of its name in front of `x` would be `x` itself
      have hy' : y ∈ before.filter (localPart ·.1.name = localPart x.1.name) := by
        simp [hy, hname]
      obtain ⟨z, zs, hz⟩ := List.exists_cons_of_ne_nil (List.ne_nil_of_mem hy')
      rw [hz, List.cons_append, List.cons.injEq] at hfilter
      have hx : x ∈ before.filter (localPart ·.1.name = localPart x.1.name) := by
        rw [hz, hfilter.1]
        exact List.mem_cons_self
      exact hfirst (List.mem_filter.1 hx).1
    refine Reordered.trans ?_ (reordered_front hswap)
    refine .element (.refl x.1) (.refl x.2) (ih hrest fun n hn => ?_)
    have hfilter := hordered n hn
    rw [List.filter_append] at hfilter ⊢
    by_cases hx : localPart x.1.name = n
    · rw [List.filter_cons_of_pos (by simpa using hx), List.filter_cons_of_pos (by simpa using hx)]
        at hfilter
      have hnone : before.filter (localPart ·.1.name = n) = [] := by
        rw [List.filter_eq_nil_iff]
        intro y hy hname
        rw [decide_eq_true_eq] at hname
        refine hswap y hy (hx.trans hname.symm) ?_
        rw [hx]
        exact hn
      rw [hnone] at hfilter ⊢
      exact (List.cons.inj hfilter).2
    · rw [List.filter_cons_of_neg (by simpa using hx), List.filter_cons_of_neg (by simpa using hx)]
        at hfilter
      exact hfilter

/-- Siblings in any order make up the same tree, if those whose order counts keep it. -/
theorem reordered_of_perm (hc : c.isComplete = true) (hc' : c'.isComplete = true)
    (h : c.elements.Perm c'.elements) (hordered : ∀ n ∈ orderedNames, c.named n = c'.named n) :
    c.Reordered c' :=
  (reordered_ofElements hc).trans
    ((reordered_ofElements_of_perm h hordered).trans (reordered_ofElements hc').symm)

end Content

end UmlTyping.Xml
