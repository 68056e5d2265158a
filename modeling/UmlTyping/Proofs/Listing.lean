import UmlTyping.Proofs.Grouping
import UmlTyping.Proofs.PlainReading

/-!
# Lists of plain documents

In a plain document the members of an element are read as if it held nothing else. While a list is
open its members are read and all else is kept, and what is kept is read afterwards in the same way;
both come to the entries of the children, grouped (`readsAs_readChildren`). Since the grouping is
gone from elements (`readsAs_readElement`), what is left of reading a document is to collect its
members in document order (`ofContent_of_isPlainDocument`).

A child carries its reader, of which nothing can be asked but what it comes to. `Child.IsPlain` says
that this is the same for all scopes that a reader may be given, which is why `asMember?` can ask for
the outcome with those of the outermost tag.
-/

namespace UmlTyping.Xmi

open Xml

/-! ## Reading lists -/

/-- A reader comes to some member, whatever the scopes are that it is given. -/
def ReadsMember (base : Scopes) (reading : Reading Member) (member : Option Member) : Prop :=
  ∀ s, base.Over s → ReadsAs base s (reading s) member

/-- What a child is as a member of a list, if it is one. -/
def Child.asMember? (base : Scopes) (child : Child) : Option (String × Option Member) :=
  child.reading?.map fun reading => (child.tag.name, outcome (reading base))

/-- What is known of a child of plain content: its reader is not sensitive to scopes. -/
structure Child.IsPlain (base : Scopes) (child : Child) : Prop where
  bindsReserved : child.tag.bindsReserved = false
  isHarmless : child.tag.isHarmless base = true
  isField : Tag.isField (localPart child.tag.name) = false
  inner : child.inner.isPlain base = true
  steady : ∀ reading, child.reading? = some reading →
    ReadsMember base reading (outcome (reading base))

namespace Children

/-- Whether there is text directly between the children. -/
def hasText : Children → Bool
  | .finished => false
  | .broken => false
  | .declaration rest => rest.hasText
  | .text .. => true
  | .element _ rest => rest.hasText

/-- The children are plain, and no text stands behind a member of a list. -/
inductive IsPlain (base : Scopes) : Children → Prop
  | finished : IsPlain base .finished
  | declaration {rest : Children} : IsPlain base rest → IsPlain base (.declaration rest)
  | text {rest : Children} : IsPlain base rest → IsPlain base (.text true rest)
  | element {child : Child} {rest : Children} : child.IsPlain base →
    (child.reading?.isSome → rest.hasText = false) → IsPlain base rest →
    IsPlain base (.element child rest)

/-- The children in document order. -/
def list : Children → List Child
  | .finished => []
  | .broken => []
  | .declaration rest => rest.list
  | .text _ rest => rest.list
  | .element child rest => child :: rest.list

end Children

/-- What children are as members of lists. -/
def entriesOf (base : Scopes) (children : List Child) : List (String × Option Member) :=
  children.filterMap (·.asMember? base)

/-- How a child is read as a member of the list with a name, if it is one. -/
def Child.readingIn? (name : String) (child : Child) : Option (Reading Member) :=
  child.reading?.filter fun _ => child.tag.name = name

/-- The children that are not members of the list with a name. -/
def keptFrom (name : String) (children : List Child) : List Child :=
  children.filter (·.readingIn? name |>.isNone)

variable {base s s' : Scopes} {name : String} {child : Child} {kept : List Child} {c : Children}
  {wanted : List String} {owner : Tag} {found : Fields}

lemma Children.IsPlain.list (h : c.IsPlain base) : ∀ child ∈ c.list, child.IsPlain base := by
  induction h with
  | finished => exact List.forall_mem_nil _
  | declaration _ ih => exact ih
  | text _ ih => exact ih
  | element hchild _ _ ih => exact List.forall_mem_cons.2 ⟨hchild, ih⟩

lemma entriesOf_cons (child : Child) (rest : List Child) :
    entriesOf base (child :: rest) = (child.asMember? base).toList ++ entriesOf base rest := by
  unfold entriesOf
  rw [List.filterMap_cons]
  cases child.asMember? base with
  | none => rfl
  | some x => rfl

/-- The entry of a child that is a member of a list. -/
lemma asMember?_of_readingIn? {reading : Reading Member}
    (h : child.readingIn? name = some reading) :
    child.asMember? base = some (name, outcome (reading base)) := by
  obtain ⟨hreading, hname⟩ := Option.filter_eq_some_iff.1 h
  rw [Child.asMember?, hreading, ← of_decide_eq_true hname]
  rfl

/-- A child that is not a member of a list has no entry in it. -/
lemma ne_of_readingIn?_eq_none (h : child.readingIn? name = none) :
    ∀ x ∈ child.asMember? base, x.1 ≠ name := by
  intro x hx hname
  obtain ⟨reading, hreading, rfl⟩ := Option.map_eq_some_iff.1 hx
  have hin : child.readingIn? name = some reading :=
    Option.filter_eq_some_iff.2 ⟨hreading, decide_eq_true hname⟩
  cases h.symm.trans hin

lemma entriesOf_keptFrom (name : String) (children : List Child) :
    entriesOf base (keptFrom name children) = withoutName name (entriesOf base children) := by
  induction children with
  | nil => rfl
  | cons child rest ih =>
    rw [keptFrom, List.filter_cons, entriesOf_cons, withoutName, List.filter_append]
    cases hin : child.readingIn? name with
    | some reading =>
      rw [asMember?_of_readingIn? hin, Option.toList_some, List.filter_cons_of_neg (by simp)]
      exact ih
    | none =>
      have hall : (child.asMember? base).toList.filter (·.1 ≠ name) =
          (child.asMember? base).toList := by
        rw [List.filter_eq_self]
        intro x hx
        exact decide_eq_true (ne_of_readingIn?_eq_none hin x (Option.mem_toList.1 hx))
      rw [hall, ← withoutName, ← ih]
      exact entriesOf_cons child _

lemma entriesOf_filter (p : String → Bool) (children : List Child) :
    entriesOf base (children.filter (p ·.tag.name)) =
      (entriesOf base children).filter (p ·.1) := by
  induction children with
  | nil => rfl
  | cons child rest ih =>
    rw [entriesOf_cons, List.filter_append, ← ih, List.filter_cons]
    cases hentry : child.asMember? base with
    | none =>
      split
      · rw [entriesOf_cons, hentry]
        rfl
      · rfl
    | some x =>
      obtain ⟨reading, -, rfl⟩ := Option.map_eq_some_iff.1 hentry
      split
      next hp =>
        rw [entriesOf_cons, hentry, Option.toList_some, List.filter_cons, if_pos hp]
        rfl
      next hp =>
        rw [Option.toList_some, List.filter_cons, if_neg hp]
        rfl

/-! ## Reading list by list -/

/-- What is read of lists and what is read beside them, as one value. -/
def asOne {α β : Type} (r : α × β × Scopes) : (α × β) × Scopes := ((r.1, r.2.1), r.2.2)

namespace ReadsAs

variable {α β γ δ : Type}

lemma bindOne {x : Except Fault (γ × Scopes)} {a : Option γ}
    {f : γ × Scopes → Except Fault (α × β × Scopes)} {g : γ → Option (α × β)}
    (h : ReadsAs base s x a)
    (hf : ∀ v s', base.Follows s s' → ReadsAs base s' (asOne <$> f (v, s')) (g v)) :
    ReadsAs base s (asOne <$> (x >>= f)) (a.bind g) := by
  rw [map_bind]
  exact h.bind hf

lemma mapOne {x : Except Fault (α × β × Scopes)} {a : Option (α × β)}
    (h : ReadsAs base s (asOne <$> x) a) (f : α × β → γ × δ) :
    ReadsAs base s (asOne <$> (x >>= fun r =>
      .ok ((f (r.1, r.2.1)).1, (f (r.1, r.2.1)).2, r.2.2))) (a.map f) := by
  rw [map_bind]
  refine Eq.mp (congrArg (ReadsAs base s · _) ?_) (h.map f)
  cases x with
  | error e => rfl
  | ok r => rfl

lemma leaveOne {tag : Tag} {x : Except Fault (α × β × Scopes)} {a : Option (α × β)}
    (htag : tag.isHarmless base = true) (h : ReadsAs base (s.enter tag) (asOne <$> x) a)
    (f : α × β → γ) :
    ReadsAs base s (x >>= fun r => .ok (f (r.1, r.2.1), r.2.2.leave)) (a.map f) := by
  refine Eq.mp (congrArg (ReadsAs base s · _) ?_) (h.leave htag f)
  cases x with
  | error e => rfl
  | ok r => rfl

/-- What is known of an outcome and of the scopes behind it. -/
lemma of_eq_ok {x : Except Fault (α × β × Scopes)} {a : Option (α × β)} {r : α × β × Scopes}
    (h : ReadsAs base s (asOne <$> x) a) (hr : x = .ok r) :
    a = some (r.1, r.2.1) ∧ base.Follows s r.2.2 := by
  subst hr
  exact ⟨h.outcome.symm, h.follows _ rfl⟩

end ReadsAs

/-- While a list is open its members are read, and all else is kept. -/
lemma readsAs_readOpenList (h : c.IsPlain base) (htext : c.hasText = false) (hs : base.Over s)
    (name : String) :
    ReadsAs base s (asOne <$> readOpenList name s c)
      ((allPresent (withName name (entriesOf base c.list))).map (·, keptFrom name c.list)) := by
  induction h generalizing s with
  | finished => exact .pure (.refl base s) _
  | declaration _ ih => exact ih htext hs
  | text => cases htext
  | @element child rest hchild _ _ ih =>
    rw [readOpenList, hchild.bindsReserved, if_neg Bool.false_ne_true, Children.list,
      entriesOf_cons, withName, List.filter_append, keptFrom, List.filter_cons]
    cases hin : child.readingIn? name with
    | some reading =>
      have hentry : child.asMember? base = some (name, outcome (reading base)) :=
        asMember?_of_readingIn? hin
      rw [Child.readingIn?] at hin
      have hreading := (Option.filter_eq_some_iff.1 hin).1
      rw [hin, hentry, Option.toList_some, List.filter_cons_of_pos (by simp), List.filter_nil,
        List.singleton_append, allPresent_cons, Option.map_bind]
      -- the rest is read with the scopes that the member hands on
      show ReadsAs base s (asOne <$> (reading s >>= fun r => readOpenList name r.2 rest >>=
        fun r' => pure (r.1 :: r'.1, r'.2.1, r'.2.2))) _
      refine (hchild.steady reading hreading s hs).bindOne fun member s' hfollows => ?_
      have hrest := (ih htext (hs.follows hfollows)).mapOne fun p => (member :: p.1, p.2)
      rw [Option.map_map] at hrest
      show ReadsAs base s' _ (((allPresent (withName name (entriesOf base rest.list))).map
        (member :: ·)).map (·, keptFrom name rest.list))
      rw [Option.map_map]
      exact hrest
    | none =>
      have hnone : (child.asMember? base).toList.filter (·.1 = name) = [] := by
        rw [List.filter_eq_nil_iff]
        intro x hx
        simpa using ne_of_readingIn?_eq_none hin x (Option.mem_toList.1 hx)
      rw [Child.readingIn?] at hin
      rw [hnone, hin, Content.isSound_of_isPlain hchild.inner]
      have hrest := (ih htext hs).mapOne fun p => (p.1, child :: p.2)
      rw [Option.map_map] at hrest
      exact hrest

/-- Members are all read with the same scopes. -/
lemma mapM_readings (hkept : ∀ child ∈ kept, child.IsPlain base) (hs : base.Over s) :
    ((kept.filterMap Child.reading?).mapM fun reading : Reading Member =>
      reading s).toOption.map (List.map (·.1)) = allPresent (entriesOf base kept) := by
  induction kept with
  | nil => rfl
  | cons child rest ih =>
    rw [List.forall_mem_cons] at hkept
    rw [entriesOf_cons, Child.asMember?, List.filterMap_cons]
    cases hreading : child.reading? with
    | none => exact ih hkept.2
    | some reading =>
      rw [Option.map_some, Option.toList_some, List.singleton_append, allPresent_cons,
        ← (hkept.1.steady reading hreading s hs).outcome, ← ih hkept.2, List.mapM_cons]
      refine toOption_map_bind fun a => ?_
      refine (toOption_map_bind (p := List.map (·.1)) (g := fun ms => some (a.1 :: ms))
        fun _ => rfl).trans ?_
      exact Option.map_eq_bind.symm

/-- Of what is kept, only members count. -/
lemma readKept_of_isPlain (hwanted : ∀ field ∈ wanted, Tag.isField field = true)
    (hkept : ∀ child ∈ kept, child.IsPlain base) (hs : base.Over s) (read : List String) :
    (readKept wanted owner s read found kept).toOption =
      (listed read (entriesOf base kept)).map (found, ·) := by
  induction hlength : kept.length using Nat.strong_induction_on generalizing kept read with
  | _ n ih =>
    subst hlength
    cases kept with
    | nil =>
      rw [readKept]
      show some (found, []) = (listed read []).map (found, ·)
      rw [listed_nil]
      rfl
    | cons child rest =>
      rw [List.forall_mem_cons] at hkept
      rw [readKept, entriesOf_cons, Child.asMember?]
      cases hreading : child.reading? with
      | none =>
        have hfield : localPart child.tag.name ∉ wanted := by
          intro hmem
          cases (hwanted _ hmem).symm.trans hkept.1.isField
        dsimp only
        rw [if_neg hfield]
        exact ih _ (Nat.lt_succ_self _) hkept.2 read rfl
      | some reading =>
        rw [Option.map_some, Option.toList_some, List.singleton_append, listed_cons]
        dsimp only
        split
        · rfl
        · -- the list takes its later members with it, which leaves less for the lists behind
          have hothers : ∀ child' ∈ rest.filter (·.tag.name = child.tag.name),
              child'.IsPlain base :=
            fun child' hmem => hkept.2 child' (List.mem_of_mem_filter hmem)
          have hlater : ∀ child' ∈ rest.filter (·.tag.name ≠ child.tag.name),
              child'.IsPlain base :=
            fun child' hmem => hkept.2 child' (List.mem_of_mem_filter hmem)
          have hless : (rest.filter (·.tag.name ≠ child.tag.name)).length <
              (child :: rest).length :=
            Nat.lt_succ_of_le (List.length_filter_le _ _)
          rw [← (hkept.1.steady reading hreading s hs).outcome, withName, withoutName,
            ← entriesOf_filter (· = child.tag.name), ← entriesOf_filter (· ≠ child.tag.name),
            ← mapM_readings hothers hs]
          simp only [Option.map_bind, Function.comp_def, Option.map_map]
          refine toOption_bind fun a => ?_
          refine toOption_bind fun others => ?_
          refine (toOption_bind_pure _ fun r : Fields × List Member =>
            (r.1, a.1 :: others.map (·.1) ++ r.2)).trans ?_
          rw [ih _ hless hlater (localPart child.tag.name :: read) rfl, Option.map_map]
          rfl

/-- The list of the first member is read to the end of the children, the others from what that kept.
They are read with scopes that are settled. -/
lemma readsAs_lists {after : Content} (hwanted : ∀ field ∈ wanted, Tag.isField field = true)
    (h : c.IsPlain base) (htext : c.hasText = false) (hs : base.Over s)
    (hsettle : ∀ s', base.Follows s s' → base.Over (s'.settle after)) (name : String)
    (first : Member) :
    ReadsAs base s (asOne <$> (readOpenList name s c >>= fun r =>
        readKept wanted owner (r.2.2.settle after) [localPart name] found r.2.1 >>= fun k =>
          .ok (k.1, first :: r.1 ++ k.2, r.2.2)))
      (((allPresent (withName name (entriesOf base c.list))).bind fun others =>
        (listed [localPart name] (withoutName name (entriesOf base c.list))).map
          (first :: others ++ ·)).map (found, ·)) := by
  have hopen := readsAs_readOpenList h htext hs name
  cases hlist : readOpenList name s c with
  | error e =>
    rw [hlist] at hopen
    rw [Option.map_eq_none_iff.1 hopen.outcome.symm]
    exact .error e
  | ok r =>
    obtain ⟨houtcome, hfollows⟩ := hopen.of_eq_ok hlist
    obtain ⟨others, hothers, heq⟩ := Option.map_eq_some_iff.1 houtcome
    obtain ⟨rfl, hkept⟩ := Prod.mk.inj heq
    have hplain : ∀ child ∈ r.2.1, child.IsPlain base := by
      rw [← hkept]
      exact fun child hmem => h.list child (List.mem_of_mem_filter hmem)
    have hread : (readKept wanted owner (r.2.2.settle after) [localPart name] found
        r.2.1).toOption =
          (listed [localPart name] (withoutName name (entriesOf base c.list))).map (found, ·) := by
      rw [← entriesOf_keptFrom, hkept]
      exact readKept_of_isPlain hwanted hplain (hsettle _ hfollows) _
    have hlists := ReadsAs.of_toOption (y := readKept wanted owner (r.2.2.settle after)
      [localPart name] found r.2.1) hfollows fun k => (k.1, first :: r.1 ++ k.2)
    rw [hread, Option.map_map] at hlists
    rw [hothers, Option.bind_some, Option.map_map]
    show ReadsAs base s (asOne <$> (readKept wanted owner (r.2.2.settle after) [localPart name]
      found r.2.1 >>= _)) _
    rw [map_bind]
    exact hlists

/-- Children are read list by list. -/
theorem readsAs_readChildren {after : Content}
    (hwanted : ∀ field ∈ wanted, Tag.isField field = true) (h : c.IsPlain base) (hs : base.Over s)
    (hsettle : ∀ s', base.Follows s s' → base.Over (s'.settle after)) :
    ReadsAs base s (asOne <$> readChildren wanted owner after found s c)
      ((listed [] (entriesOf base c.list)).map (found, ·)) := by
  induction h generalizing s with
  | finished =>
    show ReadsAs base s _ ((listed [] []).map (found, ·))
    rw [listed_nil]
    exact .pure (.refl base s) (found, [])
  | declaration _ ih => exact ih hs hsettle
  | text _ ih =>
    rw [readChildren, if_pos rfl]
    exact ih hs hsettle
  | @element child rest hchild htext hrest ih =>
    rw [readChildren, hchild.bindsReserved, if_neg Bool.false_ne_true, Children.list,
      entriesOf_cons, Child.asMember?]
    cases hreading : child.reading? with
    | none =>
      have hfield : localPart child.tag.name ∉ wanted := by
        intro hmem
        cases (hwanted _ hmem).symm.trans hchild.isField
      -- in front of the first list other elements are skipped, not kept
      have hskip := follows_skip_of_isPlain hchild.isHarmless hchild.inner s
      dsimp only
      rw [if_neg hfield, skip_of_isPlain hchild.inner]
      exact (ih (hs.follows hskip) fun s' hs' => hsettle s' (hskip.trans hs')).mono hskip
    | some reading =>
      rw [Option.map_some, Option.toList_some, List.singleton_append, listed_cons,
        if_neg List.not_mem_nil, Option.map_bind]
      refine (hchild.steady reading hreading s hs).bindOne fun member s' hfollows => ?_
      exact readsAs_lists hwanted hrest (htext (Option.isSome_of_eq_some hreading))
        (hs.follows hfollows) (fun s'' hs'' => hsettle s'' (hfollows.trans hs'')) child.tag.name
        member

/-! ## Elements -/

/-- Members make up the same element in document order and list by list. -/
lemma bind_plainElement {entries : List (String × Option Member)} {tag : Tag}
    (hkind : ∀ x ∈ entries, ∀ m, x.2 = some m → m.kind = localPart x.1) :
    (inOrder entries).bind (plainElement wanted tag) =
      (readTag wanted tag).toOption.bind fun given =>
        (listed [] entries).map (Element.ofMembers given ·) := by
  unfold plainElement listed
  cases hin : inOrder entries with
  | none => exact (Option.bind_fun_none _).symm
  | some members =>
    have hkinds : ∀ x ∈ members, x.2.kind = localPart x.1 := by
      intro x hx
      refine hkind (x.1, some x.2) ?_ x.2 rfl
      rw [eq_map_of_inOrder hin]
      exact List.mem_map_of_mem hx
    have hadmissible : Admissible [] members ↔ Uniform (members.map (·.1)) :=
      ⟨And.right, fun huniform => ⟨fun _ _ => List.not_mem_nil, huniform⟩⟩
    simp only [Option.bind_some, hadmissible]
    by_cases huniform : Uniform (members.map (·.1))
    · simp only [if_pos huniform, Option.map_some, ofMembers_group hkinds huniform]
      exact Option.map_eq_bind
    · simp only [if_neg huniform, Option.map_none]
      exact (Option.bind_fun_none _).symm

/-- An element comes to what its members make it. -/
theorem readsAs_readElement {tag : Tag} {after : Content}
    (hwanted : ∀ field ∈ wanted, Tag.isField field = true) (h : c.IsPlain base)
    (hkind : ∀ x ∈ entriesOf base c.list, ∀ m, x.2 = some m → m.kind = localPart x.1)
    (htag : tag.isHarmless base = true) (hafter : base.HarmlessAhead after) (hs : base.Over s) :
    ReadsAs base s (readElement wanted tag c after s)
      ((inOrder (entriesOf base c.list)).bind (plainElement wanted tag)) := by
  rw [bind_plainElement hkind]
  unfold readElement
  refine .of_readTag fun given => ?_
  have hchildren : ReadsAs base (s.enter tag)
      (asOne <$> readChildren wanted tag after given (s.enter tag) c)
        ((listed [] (entriesOf base c.list)).map (given, ·)) :=
    readsAs_readChildren hwanted h (hs.follows (Scopes.follows_enter htag s))
      fun s' hs' => hs.settle htag hs' hafter
  have hread := hchildren.leaveOne htag fun p => Element.ofMembers p.1 p.2
  rw [Option.map_map] at hread
  exact hread

/-! ## Content -/

/-- The local name of the elements whose lists are looked for. -/
def holder (isTop : Bool) : String := if isTop then "Model" else "packagedElement"

/-- The children of some content are plain, and in document order they are its members. -/
structure ChildrenOf (base : Scopes) (isTop : Bool) (content : Content) : Prop where
  plain : (children isTop content).IsPlain base
  kind : ∀ x ∈ entriesOf base (children isTop content).list, ∀ m, x.2 = some m →
    m.kind = localPart x.1
  members : inOrder (entriesOf base (children isTop content).list) =
    plainMembers base isTop content

lemma hasText_children (isTop : Bool) (content : Content) :
    (children isTop content).hasText = content.hasText := by
  induction content with
  | finished => rfl
  | broken => rfl
  | declaration rest ih => exact ih
  | text content rest _ => rfl
  | element tag inner rest _ ih => exact ih

/-- Elements of other names are no members. -/
lemma plainMember?_eq_none {isTop : Bool} {tag : Tag} {inner : Content}
    {inside : Option (List (String × Member))} (hpackaged : localPart tag.name ≠ "packagedElement")
    (hlists : isTop = false →
      localPart tag.name ∉ ["ownedAttribute", "ownedLiteral", "generalization"]) :
    plainMember? base isTop tag inner inside = none := by
  unfold plainMember?
  split
  next hname => exact absurd hname hpackaged
  next hname => exact absurd (by simp [hname]) (hlists rfl)
  next hname => exact absurd (by simp [hname]) (hlists rfl)
  next hname => exact absurd (by simp [hname]) (hlists rfl)
  · rfl

/-- Members stand in the lists of the element that holds them. -/
lemma name_mem_listsOf {isTop : Bool} {tag : Tag} {inner : Content}
    {inside : Option (List (String × Member))}
    (h : (plainMember? base isTop tag inner inside).isSome) :
    localPart tag.name ∈ Content.listsOf (holder isTop) := by
  by_contra hname
  cases isTop with
  | false =>
    simp only [holder, Content.listsOf, Bool.false_eq_true, if_false, List.mem_cons,
      not_or] at hname
    rw [plainMember?_eq_none hname.1 fun _ => by simpa using hname.2] at h
    cases h
  | true =>
    simp only [holder, Content.listsOf, if_true, List.mem_singleton] at hname
    rw [plainMember?_eq_none hname fun htop => by cases htop] at h
    cases h

lemma readsMember_asMember {α : Type} {reading : Reading α} {a : Option α}
    (h : ∀ s, base.Over s → ReadsAs base s (reading s) a) (f : α → Member) :
    ReadsMember base (reading.asMember f) (a.map f) :=
  fun s hs => (h s hs).map f

/-- What a reader comes to can be asked with the scopes of the outermost tag. -/
lemma outcome_of_rel {reading? : Option (Reading Member)} {member? : Option (Option Member)}
    (h : Option.Rel (ReadsMember base) reading? member?) :
    reading?.map (fun reading => outcome (reading base)) = member? ∧
      ∀ reading, reading? = some reading → ReadsMember base reading (outcome (reading base)) := by
  cases h with
  | none => exact ⟨rfl, fun _ h => by cases h⟩
  | @some reading member h =>
    have houtcome : outcome (reading base) = member := (h base (.refl base)).outcome
    refine ⟨congrArg some houtcome, fun reading' hsome => ?_⟩
    cases hsome
    rwa [houtcome]

/-- How an element is read as a member of a list. -/
lemma exists_reading {tag : Tag} {inner rest : Content}
    (h : Content.PlainElement base tag inner rest)
    (hinner : inner.hasTextBehind (Content.listsOf "packagedElement") = false →
      ChildrenOf base false inner) (isTop : Bool) :
    ∃ reading? : Option (Reading Member), children isTop (.element tag inner rest) =
        .element { tag, inner, reading? } (children isTop rest) ∧
      Option.Rel (ReadsMember base) reading?
        (plainMember? base isTop tag inner (plainMembers base false inner)) := by
  refine ⟨_, rfl, ?_⟩
  split
  next hname =>
    -- an element among the members has lists of its own
    have hchildren : ChildrenOf base false inner := hinner (hname ▸ h.hasTextBehind)
    simp only [plainMember?, hname]
    rw [← hchildren.members]
    refine .some (readsMember_asMember (fun s hs => ?_) _)
    exact readsAs_readElement (by decide) hchildren.plain hchildren.kind h.isHarmless
      (Content.harmlessAhead_of_isPlain h.rest) hs
  next hname =>
    simp only [plainMember?, hname]
    exact .some (readsMember_asMember
      (fun s hs => readsAs_readOwnedAttribute h.inner h.isHarmless hs) _)
  next hname =>
    simp only [plainMember?, hname]
    exact .some (readsMember_asMember
      (fun s hs => readsAs_readValue h.inner h.isHarmless (by decide) hs) _)
  next hname =>
    simp only [plainMember?, hname]
    exact .some (readsMember_asMember
      (fun s hs => readsAs_readValue h.inner h.isHarmless (by decide) hs) _)
  next hpackaged hattribute hliteral hgeneral =>
    rw [plainMember?_eq_none hpackaged]
    · exact .none
    · intro htop hname
      simp only [List.mem_cons, List.not_mem_nil, or_false] at hname
      rcases hname with hname | hname | hname
      · exact hattribute hname htop
      · exact hliteral hname htop
      · exact hgeneral hname htop

theorem childrenOf_of_isPlain {content : Content} (hcontent : content.isPlain base = true)
    (isTop : Bool) (htext : content.hasTextBehind (Content.listsOf (holder isTop)) = false) :
    ChildrenOf base isTop content := by
  induction content generalizing isTop with
  | finished => exact ⟨.finished, List.forall_mem_nil _, rfl⟩
  | broken => cases hcontent
  | declaration rest ih =>
    have hrest := ih hcontent isTop htext
    exact ⟨.declaration hrest.plain, hrest.kind, hrest.members⟩
  | text content rest ih =>
    rw [Content.isPlain, Bool.and_eq_true] at hcontent
    have hrest := ih hcontent.2 isTop htext
    refine ⟨?_, hrest.kind, hrest.members⟩
    rw [children, hcontent.1]
    exact .text hrest.plain
  | element tag inner rest ihinner ihrest =>
    have helement := Content.plainElement_of_isPlain hcontent
    obtain ⟨htextRest, htextMember⟩ := Content.hasTextBehind_element htext
    have hrest := ihrest helement.rest isTop htextRest
    obtain ⟨reading?, hchildren, hreading⟩ := exists_reading helement
      (fun htext => ihinner helement.inner false htext) isTop
    obtain ⟨houtcome, hsteady⟩ := outcome_of_rel hreading
    have hentry : Child.asMember? base { tag, inner, reading? } =
        (plainMember? base isTop tag inner (plainMembers base false inner)).map
          (tag.name, ·) := by
      rw [← houtcome, Option.map_map]
      rfl
    refine ⟨?_, ?_, ?_⟩
    · have hchild : Child.IsPlain base { tag, inner, reading? } :=
        ⟨helement.bindsReserved, helement.isHarmless, helement.isField, helement.inner, hsteady⟩
      rw [hchildren]
      refine .element hchild (fun hsome => ?_) hrest.plain
      have hmember :
          (plainMember? base isTop tag inner (plainMembers base false inner)).isSome := by
        rw [← houtcome, Option.isSome_map]
        exact hsome
      rw [hasText_children]
      exact htextMember (name_mem_listsOf hmember)
    · rw [hchildren, Children.list, entriesOf_cons, List.forall_mem_append, hentry]
      refine ⟨fun x hx m hm => ?_, hrest.kind⟩
      obtain ⟨member, hmember, rfl⟩ := Option.map_eq_some_iff.1 (Option.mem_toList.1 hx)
      subst hm
      exact (plainMember?_kind hmember).symm
    · rw [hchildren, Children.list, entriesOf_cons, hentry, plainMembers, ← hrest.members]
      cases plainMember? base isTop tag inner (plainMembers base false inner) with
      | none => rfl
      | some member =>
        show inOrder ((tag.name, member) :: _) = _
        rw [inOrder_cons, addMember]
        simp only [Option.map_eq_bind]
        rfl

/-! ## Documents -/

theorem readsAs_readModel {tag : Tag} {inner rest : Content}
    (h : Content.PlainElement base tag inner rest) (hname : localPart tag.name = "Model")
    (hs : base.Over s) :
    ReadsAs base s (readModel tag inner rest s) (plainModel base tag inner) := by
  have htext := h.hasTextBehind
  rw [hname] at htext
  have hchildren : ChildrenOf base true inner := childrenOf_of_isPlain h.inner true htext
  have helement : ReadsAs base s (readElement ["@name"] tag (children true inner) rest s)
      ((plainMembers base true inner).bind (plainElement ["@name"] tag)) := by
    rw [← hchildren.members]
    exact readsAs_readElement (by decide) hchildren.plain hchildren.kind h.isHarmless
      (Content.harmlessAhead_of_isPlain h.rest) hs
  have hmodel : plainModel base tag inner = ((plainMembers base true inner).bind
      (plainElement ["@name"] tag)).map fun model =>
        { name := model.name, elements := model.elements } := by
    rw [Option.map_eq_bind, Option.bind_assoc]
    rfl
  rw [hmodel]
  exact helement.map fun model : Element =>
    ({ name := model.name, elements := model.elements } : Document)

/-- One model is looked for, and there may be no other. -/
lemma readRoot_of_isPlain {content : Content} (h : content.isPlain base = true)
    (hs : base.Over s) :
    (readRoot none s content).toOption =
        (Content.only? (content.named "Model")).bind (fun x => plainModel base x.1 x.2) ∧
      ∀ d, (readRoot (some d) s content).toOption =
        if content.named "Model" = [] then some d else none := by
  induction content generalizing s with
  | finished => exact ⟨rfl, fun _ => rfl⟩
  | broken => cases h
  | declaration rest ih => exact ih h hs
  | text content rest ih =>
    rw [Content.isPlain, Bool.and_eq_true] at h
    simp only [readRoot, if_pos h.1]
    exact ih h.2 hs
  | element tag inner rest _ ih =>
    have helement := Content.plainElement_of_isPlain h
    simp only [readRoot, helement.bindsReserved, Bool.false_eq_true, if_false,
      Content.named_element]
    by_cases hname : localPart tag.name = "Model"
    · rw [if_pos hname, if_pos hname]
      constructor
      · -- behind the model there may be no other
        have hnext : (readModel tag inner rest s >>= fun r =>
            readRoot (some r.1) r.2 rest).toOption =
              (plainModel base tag inner).bind fun d =>
                if rest.named "Model" = [] then some d else none :=
          (readsAs_readModel helement hname hs).toOption_bind fun d s' hfollows =>
            (ih helement.rest (hs.follows hfollows)).2 d
        refine hnext.trans ?_
        cases rest.named "Model" with
        | nil => exact Option.bind_fun_some _
        | cons x others => exact Option.bind_fun_none _
      · intro d
        rw [if_pos hname]
        rfl
    · have hskip := follows_skip_of_isPlain helement.isHarmless helement.inner s
      have hrest := ih helement.rest (hs.follows hskip)
      rw [if_neg hname, if_neg hname, skip_of_isPlain helement.inner]
      refine ⟨hrest.1, fun d => ?_⟩
      rw [if_neg hname]
      exact hrest.2 d

/-- Plain documents are read by collecting. -/
theorem ofContent_of_isPlainDocument {content : Content} (h : content.isPlainDocument = true) :
    (Document.ofContent content).toOption = plainDocument content := by
  induction content with
  | finished => cases h
  | broken => cases h
  | declaration rest ih => exact ih h
  | text => cases h
  | element tag inner rest =>
    simp only [Content.isPlainDocument, Bool.and_eq_true, Bool.not_eq_true',
      List.isEmpty_iff] at h
    obtain ⟨⟨hreserved, hinner⟩, hrest⟩ := h
    rw [Document.ofContent, hreserved, plainDocument, Content.elements, hrest]
    show (readTag [] tag >>= fun _ => readRoot none (Scopes.enter {} tag) inner).toOption =
      plainRoot tag inner
    unfold plainRoot
    rw [Content.isComplete_of_isPlain hinner]
    cases readTag [] tag with
    | error e => rfl
    | ok _ => exact (readRoot_of_isPlain hinner (.refl _)).1

end UmlTyping.Xmi
