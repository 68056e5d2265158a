import UmlTyping.Proofs.Collecting

/-!
# Lists that are read one after the other

An element with lists is read list by list: each list where its first member stands, with all later
members of that name, while what is not of the list is kept for later (`group`). Members of one list
so come to stand together, but among themselves they keep their order (`filter_group`). Since lists
are picked from the members by their kind, the grouping leaves no trace in an element.
-/

namespace UmlTyping.Xmi

open Xml

/-! ## Grouping -/

/-- What stands with a name in a list. -/
def withName {α : Type} (name : String) (l : List (String × α)) : List (String × α) :=
  l.filter (·.1 = name)

/-- What stands with other names in a list. -/
def withoutName {α : Type} (name : String) (l : List (String × α)) : List (String × α) :=
  l.filter (·.1 ≠ name)

/-- Members, given with their names as written and in document order, in the order in which their
lists are read. -/
def group : List (String × Member) → List Member
  | [] => []
  | (name, member) :: rest =>
    member :: (withName name rest).map (·.2) ++ group (withoutName name rest)
termination_by members => members.length
decreasing_by
  rw [List.length_cons]
  exact Nat.lt_succ_of_le (List.length_filter_le _ _)

/-- No list is read twice, given the local names of those that were read before. -/
def Admissible (read : List String) (members : List (String × Member)) : Prop :=
  (∀ x ∈ members, localPart x.1 ∉ read) ∧ Uniform (members.map (·.1))

instance (read : List String) (members : List (String × Member)) :
    Decidable (Admissible read members) :=
  inferInstanceAs (Decidable (_ ∧ _))

variable {read : List String} {name : String} {m : Member} {rest members : List (String × Member)}

lemma uniform_map_iff : Uniform (members.map (·.1)) ↔
    ∀ x ∈ members, ∀ y ∈ members, localPart x.1 = localPart y.1 → x.1 = y.1 := by
  simp only [Uniform, List.forall_mem_map]

/-- The list that is read first is not read again, nor is any other list. -/
lemma admissible_cons_iff : Admissible read ((name, m) :: rest) ↔
    localPart name ∉ read ∧ Admissible (localPart name :: read) (withoutName name rest) := by
  unfold Admissible withoutName
  rw [uniform_map_iff, uniform_map_iff]
  simp only [List.forall_mem_cons]
  simp only [List.mem_filter, decide_eq_true_eq, List.mem_cons, not_or]
  constructor
  · rintro ⟨⟨hread, hrest⟩, ⟨-, hfirst⟩, huniform⟩
    refine ⟨hread, fun x hx => ⟨fun hname => hx.2 ?_, hrest x hx.1⟩, fun x hx y hy => ?_⟩
    · exact (hfirst x hx.1 hname.symm).symm
    · exact (huniform x hx.1).2 y hy.1
  · rintro ⟨hread, hrest, huniform⟩
    -- what has the local name of the first list has its name
    have hfirst : ∀ x ∈ rest, localPart x.1 = localPart name → x.1 = name := by
      intro x hx hname
      by_contra hne
      exact (hrest x ⟨hx, hne⟩).1 hname
    refine ⟨⟨hread, fun x hx => ?_⟩, ⟨fun _ => trivial, fun x hx hname => ?_⟩, fun x hx => ⟨?_, ?_⟩⟩
    · by_cases hname : x.1 = name
      · rw [hname]
        exact hread
      · exact (hrest x ⟨hx, hname⟩).2
    · exact (hfirst x hx hname.symm).symm
    · exact hfirst x hx
    · intro y hy hname
      by_cases hxname : x.1 = name
      · rw [hxname] at hname ⊢
        exact (hfirst y hy hname.symm).symm
      · by_cases hyname : y.1 = name
        · rw [hyname] at hname
          exact absurd (hfirst x hx hname) hxname
        · exact huniform x ⟨hx, hxname⟩ y ⟨hy, hyname⟩ hname

/-- The members of one kind keep their order. -/
theorem filter_group (hkind : ∀ x ∈ members, x.2.kind = localPart x.1)
    (huniform : Uniform (members.map (·.1))) (kind : String) :
    (group members).filter (·.kind = kind) = (members.map (·.2)).filter (·.kind = kind) := by
  induction members using group.induct with
  | case1 =>
    rw [group]
    rfl
  | case2 name m rest ih =>
    rw [uniform_map_iff] at huniform
    rw [List.forall_mem_cons] at hkind
    have hothers : (group (withoutName name rest)).filter (·.kind = kind) =
        ((withoutName name rest).map (·.2)).filter (·.kind = kind) := by
      refine ih (fun x hx => hkind.2 x (List.mem_of_mem_filter hx)) (uniform_map_iff.2 ?_)
      intro x hx y hy
      exact huniform x (List.mem_cons_of_mem _ (List.mem_of_mem_filter hx)) y
        (List.mem_cons_of_mem _ (List.mem_of_mem_filter hy))
    -- the first list is that of its kind
    have hsame : ∀ x ∈ rest, x.2.kind = m.kind ↔ x.1 = name := by
      intro x hx
      rw [hkind.2 x hx, hkind.1]
      constructor
      · exact huniform x (List.mem_cons_of_mem _ hx) _ List.mem_cons_self
      · exact congrArg localPart
    have hrest : ((withName name rest).map (·.2)).filter (·.kind = kind) ++
        ((withoutName name rest).map (·.2)).filter (·.kind = kind) =
          (rest.map (·.2)).filter (·.kind = kind) := by
      rw [List.filter_map, List.filter_map, List.filter_map, ← List.map_append, withName,
        withoutName, List.filter_filter, List.filter_filter]
      apply congrArg
      by_cases hm : m.kind = kind
      · rw [hm] at hsame
        have hlater :
            rest.filter (fun x => decide (x.2.kind = kind) && decide (x.1 ≠ name)) = [] := by
          rw [List.filter_eq_nil_iff]
          intro x hx
          simp [hsame x hx]
        refine (congrArg (_ ++ ·) hlater).trans ((List.append_nil _).trans ?_)
        refine List.filter_congr fun x hx => ?_
        simp [hsame x hx]
      · have hfirst :
            rest.filter (fun x => decide (x.2.kind = kind) && decide (x.1 = name)) = [] := by
          rw [List.filter_eq_nil_iff]
          intro x hx
          simp only [← hsame x hx, Bool.and_eq_true, decide_eq_true_eq, not_and]
          exact fun hx' hx'' => hm (hx''.symm.trans hx')
        refine (congrArg (· ++ _) hfirst).trans (List.filter_congr fun x hx => ?_)
        simp only [Function.comp_apply, ne_eq, ← hsame x hx, Bool.and_eq_left_iff_imp,
          decide_eq_true_eq]
        exact fun hx' hx'' => hm (hx''.symm.trans hx')
    rw [group, List.cons_append, List.map_cons, List.filter_cons, List.filter_cons,
      List.filter_append, hothers, hrest]

/-- An element is the same whether its members are grouped or not. -/
theorem ofMembers_group (hkind : ∀ x ∈ members, x.2.kind = localPart x.1)
    (huniform : Uniform (members.map (·.1))) (fields : Fields) :
    Element.ofMembers fields (group members) = .ofMembers fields (members.map (·.2)) := by
  -- a list is picked from the members of its kind
  have hpick : ∀ {α : Type} (f : Member → Option α) (kind : String),
      (∀ m : Member, m.kind ≠ kind → f m = none) →
        (group members).filterMap f = (members.map (·.2)).filterMap f := by
    intro α f kind hf
    have hfilter : ∀ ms : List Member,
        ms.filterMap f = (ms.filter (·.kind = kind)).filterMap f := by
      intro ms
      rw [List.filterMap_filter]
      refine List.filterMap_congr fun m _ => ?_
      split
      · rfl
      next hm => exact hf m (by simpa using hm)
    rw [hfilter, filter_group hkind huniform, ← hfilter]
  unfold Element.ofMembers
  congr 1
  · exact hpick _ "packagedElement" fun m hm => by cases m <;> first | rfl | exact absurd rfl hm
  · exact hpick _ "ownedAttribute" fun m hm => by cases m <;> first | rfl | exact absurd rfl hm
  · exact hpick _ "ownedLiteral" fun m hm => by cases m <;> first | rfl | exact absurd rfl hm
  · exact hpick _ "generalization" fun m hm => by cases m <;> first | rfl | exact absurd rfl hm

/-! ## Entries -/

/-- The members in document order, if all of them are there. -/
def inOrder (entries : List (String × Option Member)) : Option (List (String × Member)) :=
  entries.mapM fun x => x.2.map (x.1, ·)

/-- The members alone, if all of them are there. -/
def allPresent (entries : List (String × Option Member)) : Option (List Member) :=
  entries.mapM (·.2)

/-- The members that are read list by list, if all of them are there and no list is read twice. -/
def listed (read : List String) (entries : List (String × Option Member)) : Option (List Member) :=
  (inOrder entries).bind fun members =>
    if Admissible read members then some (group members) else none

variable {entries : List (String × Option Member)}

lemma inOrder_eq_none_iff : inOrder entries = none ↔ ∃ x ∈ entries, x.2 = none := by
  rw [inOrder, mapM_eq_none_iff]
  simp only [Option.map_eq_none_iff]

lemma allPresent_cons (name : String) (member : Option Member) :
    allPresent ((name, member) :: entries) =
      member.bind fun m => (allPresent entries).map (m :: ·) := by
  rw [allPresent, List.mapM_cons]
  cases member with
  | none => rfl
  | some m => exact Option.map_eq_bind.symm

lemma inOrder_cons (name : String) (member : Option Member) :
    inOrder ((name, member) :: entries) =
      member.bind fun m => (inOrder entries).map ((name, m) :: ·) := by
  rw [inOrder, List.mapM_cons]
  cases member with
  | none => rfl
  | some m => exact Option.map_eq_bind.symm

/-- Members that are all there are the only ones that are in order. -/
lemma eq_map_of_inOrder (h : inOrder entries = some members) :
    entries = members.map fun x => (x.1, some x.2) := by
  induction entries generalizing members with
  | nil =>
    cases h
    rfl
  | cons x rest ih =>
    rw [inOrder_cons] at h
    obtain ⟨m, hm, h⟩ := Option.bind_eq_some_iff.1 h
    obtain ⟨others, hothers, rfl⟩ := Option.map_eq_some_iff.1 h
    rw [List.map_cons, ← ih hothers, ← hm]

/-- The members of one list are there if all are. -/
lemma allPresent_withName (h : inOrder entries = some members) (name : String) :
    allPresent (withName name entries) = some ((withName name members).map (·.2)) := by
  rw [eq_map_of_inOrder h, withName, List.filter_map, allPresent, List.mapM_map]
  exact List.mapM_pure

lemma inOrder_withoutName (h : inOrder entries = some members) (name : String) :
    inOrder (withoutName name entries) = some (withoutName name members) := by
  rw [eq_map_of_inOrder h, withoutName, List.filter_map, inOrder, List.mapM_map]
  refine List.mapM_pure.trans ?_
  rw [List.map_id']
  rfl

lemma listed_nil (read : List String) : listed read [] = some [] := by
  have hnone : Admissible read [] := ⟨List.forall_mem_nil _, List.forall_mem_nil _⟩
  show (if Admissible read [] then some (group []) else none) = _
  rw [if_pos hnone, group]

/-- The first member opens its list. -/
lemma listed_cons (name : String) (member : Option Member) :
    listed read ((name, member) :: entries) =
      if localPart name ∈ read then none
      else
        member.bind fun first => (allPresent (withName name entries)).bind fun others =>
          (listed (localPart name :: read) (withoutName name entries)).map
            (first :: others ++ ·) := by
  rw [listed, inOrder_cons]
  cases member with
  | none =>
    split
    · rfl
    · rfl
  | some m =>
    cases hin : inOrder entries with
    | none =>
      -- a member that is missing is missing in one of the lists
      obtain ⟨x, hx, hnone⟩ := inOrder_eq_none_iff.1 hin
      split
      · rfl
      · by_cases hname : x.1 = name
        · have hothers : allPresent (withName name entries) = none :=
            mapM_eq_none_iff.2 ⟨x, List.mem_filter.2 ⟨hx, by simpa using hname⟩, hnone⟩
          rw [hothers]
          rfl
        · have hlater : inOrder (withoutName name entries) = none :=
            inOrder_eq_none_iff.2 ⟨x, List.mem_filter.2 ⟨hx, by simpa using hname⟩, hnone⟩
          rw [listed, hlater]
          exact (Option.bind_fun_none _).symm
    | some members =>
      rw [allPresent_withName hin, listed, inOrder_withoutName hin]
      show (if Admissible read ((name, m) :: members) then some (group ((name, m) :: members))
        else none) = _
      simp only [admissible_cons_iff, Option.bind_some]
      by_cases hread : localPart name ∈ read
      · simp [hread]
      · rw [group]
        by_cases hothers : Admissible (localPart name :: read) (withoutName name members)
        · simp [hread, hothers]
        · simp [hread, hothers]

end UmlTyping.Xmi
