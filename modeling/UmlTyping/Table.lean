/-!
# Tables

`Table α` is a finite map from text to `α` whose entries stand in strictly ascending order of their
keys. Text is ordered by code points. The order is part of the type, so a table lists its content in
one way only: two tables with the same look-ups are equal (`Table.ext_get?`), and how a table was
filled leaves no trace in it.
-/

namespace UmlTyping

/-- A finite map from text, listed in ascending order of its keys. -/
structure Table (α : Type) where
  /-- The keys with their values. -/
  entries : List (String × α)
  /-- Every key is smaller than those that follow it, so no key occurs twice. -/
  ascending : entries.Pairwise (fun a b => a.1 < b.1) := by simp
deriving DecidableEq

namespace Table

variable {α β : Type}

instance : EmptyCollection (Table α) := ⟨{ entries := [] }⟩

instance : Inhabited (Table α) := ⟨∅⟩

/-- The keys in ascending order. -/
def keys (t : Table α) : List String := t.entries.map (·.1)

/-- The values in the order of their keys. -/
def values (t : Table α) : List α := t.entries.map (·.2)

/-- The number of entries. -/
def size (t : Table α) : Nat := t.entries.length

/-- Whether there is no entry. -/
def isEmpty (t : Table α) : Bool := t.entries.isEmpty

/-- The value filed under `key`. -/
def get? (t : Table α) (key : String) : Option α := t.entries.lookup key

/-- Whether anything is filed under `key`. -/
def contains (t : Table α) (key : String) : Bool := (t.get? key).isSome

/-- Files `value` under `key` in its place of the ascending list, instead of what was there before. -/
def insertSorted (key : String) (value : α) : List (String × α) → List (String × α)
  | [] => [(key, value)]
  | e :: rest =>
    if key < e.1 then (key, value) :: e :: rest
    else if key = e.1 then (key, value) :: rest
    else e :: insertSorted key value rest

theorem lt_of_not_lt_of_ne {a b : String} (h : ¬ a < b) (hne : a ≠ b) : b < a :=
  Std.lt_of_le_of_ne (Std.not_lt.1 h) hne.symm

theorem mem_insertSorted {key : String} {value : α} {l : List (String × α)} {e : String × α}
    (h : e ∈ insertSorted key value l) : e = (key, value) ∨ e ∈ l := by
  induction l with
  | nil => simpa [insertSorted] using h
  | cons d rest ih =>
    rw [insertSorted] at h
    split at h
    · simpa using h
    · split at h
      · simp only [List.mem_cons] at h ⊢
        exact h.imp_right .inr
      · rcases List.mem_cons.1 h with rfl | h
        · simp
        · exact (ih h).imp_right (List.mem_cons_of_mem d)

theorem pairwise_insertSorted {key : String} {value : α} {l : List (String × α)}
    (h : l.Pairwise (fun a b => a.1 < b.1)) :
    (insertSorted key value l).Pairwise (fun a b => a.1 < b.1) := by
  induction l with
  | nil => simp [insertSorted]
  | cons d rest ih =>
    obtain ⟨hd, hrest⟩ := List.pairwise_cons.1 h
    rw [insertSorted]
    split
    next hlt =>
      refine List.pairwise_cons.2 ⟨fun e he => ?_, h⟩
      rcases List.mem_cons.1 he with rfl | he
      · exact hlt
      · exact String.lt_trans hlt (hd e he)
    next hnlt =>
      split
      next heq => exact List.pairwise_cons.2 ⟨fun e he => heq ▸ hd e he, hrest⟩
      next hne =>
        refine List.pairwise_cons.2 ⟨fun e he => ?_, ih hrest⟩
        rcases mem_insertSorted he with rfl | he
        · exact lt_of_not_lt_of_ne hnlt hne
        · exact hd e he

/-- Files `value` under `key`, instead of what was there before. -/
def insert (t : Table α) (key : String) (value : α) : Table α where
  entries := insertSorted key value t.entries
  ascending := pairwise_insertSorted t.ascending

/-- The table that files every pair in turn, so that the last one wins. -/
def ofList (l : List (String × α)) : Table α :=
  l.foldl (fun t e => t.insert e.1 e.2) ∅

/-- The table with `f` applied to each value. -/
def map (f : α → β) (t : Table α) : Table β where
  entries := t.entries.map fun e => (e.1, f e.2)
  ascending := List.Pairwise.map _ (fun _ _ h => h) t.ascending

/-! ## Look-up -/

@[simp] theorem get?_empty (key : String) : (∅ : Table α).get? key = none := rfl

theorem lookup_cons_self (d : String × α) (l : List (String × α)) :
    (d :: l).lookup d.1 = some d.2 := by
  obtain ⟨dk, dv⟩ := d
  simp

theorem lookup_cons_of_ne {k : String} {d : String × α} {l : List (String × α)} (h : k ≠ d.1) :
    (d :: l).lookup k = l.lookup k := by
  obtain ⟨dk, dv⟩ := d
  have h : (k == dk) = false := beq_eq_false_iff_ne.2 h
  simp [List.lookup_cons, h]

theorem lookup_insertSorted (key k : String) (value : α) (l : List (String × α)) :
    (insertSorted key value l).lookup k = if k = key then some value else l.lookup k := by
  induction l with
  | nil =>
    by_cases h : k = key
    · simp [insertSorted, h]
    · simp [insertSorted, h, lookup_cons_of_ne (d := (key, value)) h]
  | cons d rest ih =>
    rw [insertSorted]
    split
    · by_cases h : k = key
      · simp [h]
      · simp [h, lookup_cons_of_ne (d := (key, value)) h]
    · split
      next heq =>
        by_cases h : k = key
        · simp [h]
        · rw [lookup_cons_of_ne (d := (key, value)) h, lookup_cons_of_ne (heq ▸ h), if_neg h]
      next hne =>
        by_cases hk : k = d.1
        · have : k ≠ key := fun h => hne (h.symm.trans hk)
          rw [if_neg this, hk, lookup_cons_self, lookup_cons_self]
        · rw [lookup_cons_of_ne hk, lookup_cons_of_ne hk, ih]

theorem get?_insert (t : Table α) (key k : String) (value : α) :
    (t.insert key value).get? k = if k = key then some value else t.get? k :=
  lookup_insertSorted key k value t.entries

@[simp] theorem get?_insert_self (t : Table α) (key : String) (value : α) :
    (t.insert key value).get? key = some value := by
  simp [get?_insert]

theorem get?_insert_of_ne (t : Table α) {key k : String} (h : k ≠ key) (value : α) :
    (t.insert key value).get? k = t.get? k := by
  simp [get?_insert, h]

theorem mem_of_lookup_eq_some {l : List (String × α)} {key : String} {value : α}
    (h : l.lookup key = some value) : (key, value) ∈ l := by
  induction l with
  | nil => simp at h
  | cons d rest ih =>
    by_cases hk : key = d.1
    · rw [hk, lookup_cons_self, Option.some.injEq] at h
      simp [hk, ← h]
    · rw [lookup_cons_of_ne hk] at h
      exact List.mem_cons_of_mem _ (ih h)

theorem lookup_eq_some_of_mem {l : List (String × α)} {key : String} {value : α}
    (hl : l.Pairwise (fun a b => a.1 < b.1)) (h : (key, value) ∈ l) :
    l.lookup key = some value := by
  induction l with
  | nil => simp at h
  | cons d rest ih =>
    obtain ⟨hd, hrest⟩ := List.pairwise_cons.1 hl
    rcases List.mem_cons.1 h with rfl | h
    · exact lookup_cons_self (key, value) rest
    · have hne : key ≠ d.1 := fun he => String.lt_irrefl _ (he ▸ hd _ h)
      rw [lookup_cons_of_ne hne, ih hrest h]

/-- Look-up finds exactly the pairs that are listed. -/
theorem get?_eq_some_iff {t : Table α} {key : String} {value : α} :
    t.get? key = some value ↔ (key, value) ∈ t.entries :=
  ⟨mem_of_lookup_eq_some, lookup_eq_some_of_mem t.ascending⟩

theorem mem_keys_of_get?_eq_some {t : Table α} {key : String} {value : α}
    (h : t.get? key = some value) : key ∈ t.keys :=
  List.mem_map.2 ⟨_, get?_eq_some_iff.1 h, rfl⟩

theorem contains_eq_true_iff {t : Table α} {key : String} :
    t.contains key = true ↔ ∃ value, t.get? key = some value :=
  Option.isSome_iff_exists

/-- Tables with the same look-ups are equal: the entry that one lists first is the least of both. -/
theorem eq_of_lookup_eq {l m : List (String × α)} (hl : l.Pairwise (fun a b => a.1 < b.1))
    (hm : m.Pairwise (fun a b => a.1 < b.1)) (h : ∀ k, l.lookup k = m.lookup k) : l = m := by
  induction l generalizing m with
  | nil =>
    cases m with
    | nil => rfl
    | cons e m => simpa [lookup_cons_self] using h e.1
  | cons d l ih =>
    cases m with
    | nil => simpa [lookup_cons_self] using h d.1
    | cons e m =>
      obtain ⟨hd, hl'⟩ := List.pairwise_cons.1 hl
      obtain ⟨he, hm'⟩ := List.pairwise_cons.1 hm
      have heq : d = e := by
        rcases List.mem_cons.1 (mem_of_lookup_eq_some ((h d.1).symm.trans (lookup_cons_self d l))) with hmem | hmem
        · exact hmem
        rcases List.mem_cons.1 (mem_of_lookup_eq_some ((h e.1).trans (lookup_cons_self e m))) with hmem' | hmem'
        · exact hmem'.symm
        exact absurd (String.lt_trans (he _ hmem) (hd _ hmem')) (String.lt_irrefl _)
      subst heq
      refine congrArg (d :: ·) ?_
      refine ih hl' hm' fun k => ?_
      by_cases hk : k = d.1
      · -- neither rest mentions the key that stands in front
        have absent : ∀ r : List (String × α), (∀ a ∈ r, d.1 < a.1) → r.lookup k = none := by
          intro r hr
          cases hval : r.lookup k with
          | none => rfl
          | some value => exact absurd (hk ▸ hr _ (mem_of_lookup_eq_some hval)) (String.lt_irrefl _)
        rw [absent l hd, absent m he]
      · simpa [lookup_cons_of_ne hk] using h k

theorem ext_get? {t u : Table α} (h : ∀ k, t.get? k = u.get? k) : t = u := by
  obtain ⟨l, hl⟩ := t
  obtain ⟨m, hm⟩ := u
  have : l = m := eq_of_lookup_eq hl hm h
  subst this
  rfl

/-- Under different keys it does not matter what is filed first. -/
theorem insert_comm (t : Table α) {k k' : String} (h : k ≠ k') (v v' : α) :
    (t.insert k v).insert k' v' = (t.insert k' v').insert k v := by
  apply ext_get?
  intro j
  simp only [get?_insert]
  split
  next hj => rw [if_neg (hj ▸ h.symm)]
  · rfl

theorem contains_insert (t : Table α) (k k' : String) (v : α) :
    (t.insert k v).contains k' = (decide (k' = k) || t.contains k') := by
  rw [contains, contains, get?_insert]
  split
  next hk => simp [hk]
  next hk => simp [hk]

/-! ## Keys -/

theorem mem_keys_iff {t : Table α} {key : String} :
    key ∈ t.keys ↔ ∃ value, t.get? key = some value := by
  constructor
  · intro h
    rcases List.mem_map.1 h with ⟨⟨k, value⟩, hmem, rfl⟩
    exact ⟨value, get?_eq_some_iff.2 hmem⟩
  · rintro ⟨value, h⟩
    exact mem_keys_of_get?_eq_some h

theorem mem_keys_insert {t : Table α} {key k : String} {value : α} :
    k ∈ (t.insert key value).keys ↔ k = key ∨ k ∈ t.keys := by
  rw [mem_keys_iff, mem_keys_iff, get?_insert]
  by_cases h : k = key
  · simp [h]
  · simp [h]

/-- A table that is filled from a list has its keys and no others. -/
theorem mem_keys_ofList {l : List (String × α)} {k : String} :
    k ∈ (ofList l).keys ↔ k ∈ l.map (·.1) := by
  have hfold : ∀ t : Table α, k ∈ (l.foldl (fun t e => t.insert e.1 e.2) t).keys ↔
      k ∈ t.keys ∨ k ∈ l.map (·.1) := by
    induction l with
    | nil => simp
    | cons e rest ih =>
      intro t
      rw [List.foldl_cons, ih, mem_keys_insert, List.map_cons, List.mem_cons, or_assoc, or_left_comm]
  have hempty : k ∉ (∅ : Table α).keys := by
    intro h
    cases h
  rw [ofList, hfold]
  simp [hempty]

theorem keys_pairwise (t : Table α) : t.keys.Pairwise (· < ·) :=
  List.pairwise_map.2 t.ascending

end Table

end UmlTyping
