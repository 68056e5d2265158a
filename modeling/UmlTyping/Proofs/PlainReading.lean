import UmlTyping.Proofs.Collecting
import UmlTyping.Proofs.Scoping

/-!
# Documents that are read plainly

Reading a document is more than collecting what stands in it: scopes are kept, and while one list of
an element is open the rest of its content is held to more than elsewhere. None of this shows in the
outcome if the document leaves out what is sensitive to it (`isPlainDocument`): text behind a member
of a list, bindings inside of the outermost element that change the qualifiers of absence, and what
no well-formed document has. The readers of fields then collect (`readsAs_readFields`).

What is read of an element depends on the scopes in front of it, but only so far as they say what is
absent, and in that all scopes agree that a reader may be given (`ReadsAs`).
-/

namespace UmlTyping.Xml

/-! ## Plain content -/

namespace Tag

/-- Whether the name is that of a field that is an attribute. -/
def isField (name : String) : Bool := name.toList.head? = some '@'

/-- Whether the tag makes no reserved binding and none that changes the qualifiers of absence, and
is not of an element that stands for an attribute. -/
def isPlain (base : Scopes) (tag : Tag) : Bool :=
  !tag.bindsReserved && tag.isHarmless base && !isField (localPart tag.name)

end Tag

namespace Content

/-- Whether there is text directly in the content. -/
def hasText : Content → Bool
  | finished => false
  | broken => false
  | declaration rest => rest.hasText
  | text .. => true
  | element _ _ rest => rest.hasText

/-- Whether there is text behind one of the elements with some local names. -/
def hasTextBehind (names : List String) : Content → Bool
  | finished => false
  | broken => false
  | declaration rest => rest.hasTextBehind names
  | text _ rest => rest.hasTextBehind names
  | element tag _ rest =>
    if localPart tag.name ∈ names then rest.hasText else rest.hasTextBehind names

/-- The local names of the elements that stand in lists of the elements with a local name. -/
def listsOf : String → List String
  | "Model" => ["packagedElement"]
  | "packagedElement" => ["packagedElement", "ownedAttribute", "ownedLiteral", "generalization"]
  | _ => []

/-- Whether the content is complete, its text is readable and its tags are plain, at every depth,
with no text behind a member of a list. -/
def isPlain (base : Scopes) : Content → Bool
  | finished => true
  | broken => false
  | declaration rest => rest.isPlain base
  | text content rest => content.isSome && rest.isPlain base
  | element tag inner rest =>
    tag.isPlain base && inner.isPlain base && rest.isPlain base &&
      !inner.hasTextBehind (listsOf (localPart tag.name))

/-- Whether the document consists of one element behind declarations, plain in view of the bindings
that its tag makes. -/
def isPlainDocument : Content → Bool
  | declaration rest => rest.isPlainDocument
  | element tag inner rest =>
    !tag.bindsReserved && inner.isPlain (Scopes.enter {} tag) && rest.elements.isEmpty
  | _ => false

variable {base : Scopes} {tag : Tag} {inner rest : Content}

lemma hasTextBehind_of_hasText {c : Content} (h : c.hasText = false) (names : List String) :
    c.hasTextBehind names = false := by
  induction c with
  | finished => rfl
  | broken => rfl
  | declaration rest ih => exact ih h
  | text => cases h
  | element tag inner rest _ ih =>
    rw [hasTextBehind]
    split
    · exact h
    · exact ih h

/-- What stands behind an element has no text behind the elements with some names, and none at all
if the element is one of them. -/
lemma hasTextBehind_element {names : List String}
    (h : (element tag inner rest).hasTextBehind names = false) :
    rest.hasTextBehind names = false ∧ (localPart tag.name ∈ names → rest.hasText = false) := by
  rw [hasTextBehind] at h
  split at h
  next hname => exact ⟨hasTextBehind_of_hasText h names, fun _ => h⟩
  next hname => exact ⟨h, fun hname' => absurd hname' hname⟩

/-- What is known of an element of plain content. -/
structure PlainElement (base : Scopes) (tag : Tag) (inner rest : Content) : Prop where
  bindsReserved : tag.bindsReserved = false
  isHarmless : tag.isHarmless base = true
  isField : Tag.isField (localPart tag.name) = false
  hasTextBehind : inner.hasTextBehind (listsOf (localPart tag.name)) = false
  inner : inner.isPlain base = true
  rest : rest.isPlain base = true

lemma plainElement_of_isPlain (h : (element tag inner rest).isPlain base = true) :
    PlainElement base tag inner rest := by
  simp only [isPlain, Tag.isPlain, Bool.and_eq_true, Bool.not_eq_true'] at h
  obtain ⟨⟨⟨⟨⟨hreserved, hharmless⟩, hfield⟩, hinner⟩, hrest⟩, htext⟩ := h
  exact ⟨hreserved, hharmless, hfield, htext, hinner, hrest⟩

lemma isSound_of_isPlain {c : Content} (h : c.isPlain base = true) : c.isSound = true := by
  induction c with
  | finished => rfl
  | broken => cases h
  | declaration rest ih => exact ih h
  | text content rest ih =>
    rw [isPlain, Bool.and_eq_true] at h
    rw [isSound, Bool.and_eq_true]
    exact ⟨h.1, ih h.2⟩
  | element tag inner rest ihinner ihrest =>
    have hplain := plainElement_of_isPlain h
    rw [isSound, hplain.bindsReserved, ihinner hplain.inner, ihrest hplain.rest]
    rfl

lemma isComplete_of_isPlain {c : Content} (h : c.isPlain base = true) : c.isComplete = true := by
  induction c with
  | finished => rfl
  | broken => cases h
  | declaration rest ih => exact ih h
  | text content rest ih =>
    rw [isPlain, Bool.and_eq_true] at h
    exact ih h.2
  | element tag inner rest ihinner ihrest =>
    have hplain := plainElement_of_isPlain h
    rw [isComplete, ihinner hplain.inner, ihrest hplain.rest]
    rfl

lemma isSkippable_of_isPlain {c : Content} (h : c.isPlain base = true) : c.isSkippable = true := by
  unfold isSkippable
  rw [isComplete_of_isPlain h, Bool.true_and]
  split
  · rw [(plainElement_of_isPlain h).bindsReserved]
    rfl
  · rfl

lemma harmlessAhead_of_isPlain {c : Content} (h : c.isPlain base = true) :
    base.HarmlessAhead c := by
  cases c with
  | element tag inner rest => exact (plainElement_of_isPlain h).isHarmless
  | finished => trivial
  | broken => trivial
  | declaration rest => trivial
  | text content rest => trivial

end Content

end UmlTyping.Xml

namespace UmlTyping.Xmi

open Xml

/-! ## Outcomes -/

/-- What is read, whatever the scopes are that are handed on. -/
def outcome {α : Type} (x : Except Fault (α × Scopes)) : Option α := x.toOption.map (·.1)

/-- Given scopes, a reader comes to some value or to none, and hands on scopes that follow them. -/
structure ReadsAs {α : Type} (base s : Scopes) (x : Except Fault (α × Scopes)) (a : Option α) :
    Prop where
  outcome : outcome x = a
  follows : ∀ r, x = .ok r → base.Follows s r.2

namespace ReadsAs

variable {α β : Type} {base s s' : Scopes} {x : Except Fault (α × Scopes)} {a : Option α}

lemma pure (h : base.Follows s s') (a : α) : ReadsAs base s (.ok (a, s')) (some a) :=
  ⟨rfl, fun _ hr => Except.ok.inj hr ▸ h⟩

lemma error (e : Fault) : ReadsAs base s (.error e : Except Fault (α × Scopes)) none :=
  ⟨rfl, fun _ hr => by cases hr⟩

lemma mono (hs : base.Follows s s') (h : ReadsAs base s' x a) : ReadsAs base s x a :=
  ⟨h.outcome, fun r hr => hs.trans (h.follows r hr)⟩

/-- What is read next is given the scopes that were handed on. -/
lemma bind {f : α × Scopes → Except Fault (β × Scopes)} {g : α → Option β}
    (h : ReadsAs base s x a)
    (hf : ∀ v s', base.Follows s s' → ReadsAs base s' (f (v, s')) (g v)) :
    ReadsAs base s (x >>= f) (a.bind g) := by
  rw [← h.outcome]
  cases x with
  | error e => exact error e
  | ok r =>
    have hs := h.follows r rfl
    exact (hf r.1 r.2 hs).mono hs

lemma map (h : ReadsAs base s x a) (f : α → β) :
    ReadsAs base s (x >>= fun r => .ok (f r.1, r.2)) (a.map f) := by
  rw [Option.map_eq_bind]
  exact h.bind fun v s' _ => pure (.refl base s') (f v)

lemma toOption_bind {f : α × Scopes → Except Fault β} {g : α → Option β} (h : ReadsAs base s x a)
    (hf : ∀ v s', base.Follows s s' → (f (v, s')).toOption = g v) :
    (x >>= f).toOption = a.bind g := by
  rw [← h.outcome]
  cases x with
  | error e => rfl
  | ok r => exact hf r.1 r.2 (h.follows r rfl)

/-- The scopes behind the end tag of an element follow those in front of its start tag. -/
lemma leave {tag : Tag} (htag : tag.isHarmless base = true) (h : ReadsAs base (s.enter tag) x a)
    (f : α → β) : ReadsAs base s (x >>= fun r => .ok (f r.1, r.2.leave)) (a.map f) := by
  rw [← h.outcome]
  cases x with
  | error e => exact error e
  | ok r => exact pure ((h.follows r rfl).leave htag) (f r.1)

/-- What is read again has no part in the scopes that are handed on. -/
lemma of_toOption {y : Except Fault β} (h : base.Follows s s') (f : β → α) :
    ReadsAs base s (y >>= fun b => .ok (f b, s')) (y.toOption.map f) := by
  cases y with
  | error e => exact error e
  | ok b => exact pure h (f b)

/-- What is read of a tag has no part in scopes. -/
lemma of_readTag {f : Fields → Except Fault (α × Scopes)} {g : Fields → Option α}
    {y : Except Fault Fields} (hf : ∀ given, ReadsAs base s (f given) (g given)) :
    ReadsAs base s (y >>= f) (y.toOption.bind g) := by
  cases y with
  | error e => exact error e
  | ok given => exact hf given

end ReadsAs

/-! ## Fields -/

variable {base : Scopes} {wanted : List String} {parts : List (String × String)} {owner tag : Tag}
  {found fields : Fields} {c inner : Content} {s : Scopes}

/-- The fields of plain content, of which only parts are given by elements. -/
def plainFields (base : Scopes) (owner : Tag) (parts : List (String × String)) (found : Fields) :
    Content → Option Fields
  | .finished => some found
  | .broken => some found
  | .declaration rest => plainFields base owner parts found rest
  | .text _ rest => plainFields base owner parts found rest
  | .element tag _ rest =>
    match parts.lookup (localPart tag.name) with
    | some key =>
      if (found.lookup (localPart tag.name)).isSome then none
      else
        (plainPartValue base owner key tag).bind fun value =>
          plainFields base owner parts ((localPart tag.name, value) :: found) rest
    | none => plainFields base owner parts found rest

lemma skip_of_isPlain (h : inner.isPlain base = true) (s : Scopes) :
    skip s tag inner = .ok (s.skip tag inner) := by
  unfold skip
  rw [if_pos (Content.isSkippable_of_isPlain h)]

lemma follows_skip_of_isPlain (htag : tag.isHarmless base = true) (h : inner.isPlain base = true)
    (s : Scopes) : base.Follows s (s.skip tag inner) :=
  Scopes.follows_skip htag (Content.harmlessAhead_of_isPlain h) s

/-- A field is read unless a tag marks it as absent. -/
lemma readsAs_readField {read : Scopes → Except Fault (Option String × Scopes)}
    {value : Option (Option String)} (htag : tag.isHarmless base = true)
    (hinner : inner.isPlain base = true) (hs : base.Over s)
    (hread : ∀ s, base.Over s → ReadsAs base s (read s) value) :
    ReadsAs base s (readField found s owner tag inner read)
      (if (found.lookup (localPart tag.name)).isSome then none
      else (if base.marksAbsent owner || base.marksAbsent tag then some none else value).bind
        fun value => some ((localPart tag.name, value) :: found)) := by
  have hskip := follows_skip_of_isPlain htag hinner s
  have hover : base.Over ((s.enter tag).ahead inner) :=
    (hs.follows (Scopes.follows_enter htag s)).follows
      (Scopes.follows_ahead (Content.harmlessAhead_of_isPlain hinner) _)
  unfold readField
  dsimp only
  split
  · exact .error _
  · refine ReadsAs.bind ?_ fun value s' _ => .pure (.refl base s') _
    -- whether the part is absent is asked one token ahead, where a first tag inside may bind as well
    unfold readOptional
    dsimp only
    rw [Scopes.marksAbsent_eq hover, Scopes.marksAbsent_eq hover]
    split
    · rw [skip_of_isPlain hinner]
      exact .pure hskip none
    · have henter := hs.follows (Scopes.follows_enter htag s)
      have hvalue := (hread _ henter).leave htag id
      rwa [Option.map_id] at hvalue

/-- Where no parts are looked for, nothing is found inside of an element. -/
lemma readsAs_readContent_nil (hc : c.isPlain base = true)
    (hwanted : ∀ field ∈ wanted, Tag.isField field = true) (hs : base.Over s) :
    ReadsAs base s (readContent wanted [] owner found s c) (some found) := by
  induction c generalizing s with
  | finished => exact .pure (.refl base s) found
  | broken => cases hc
  | declaration rest ih => exact ih hc hs
  | text content rest ih =>
    rw [Content.isPlain, Bool.and_eq_true] at hc
    rw [readContent, if_pos hc.1]
    exact ih hc.2 hs
  | element tag inner rest _ ih =>
    have hplain := Content.plainElement_of_isPlain hc
    have hfield : localPart tag.name ∉ wanted := by
      intro hmem
      cases (hwanted _ hmem).symm.trans hplain.isField
    have hskip := follows_skip_of_isPlain hplain.isHarmless hplain.inner s
    rw [readContent, hplain.bindsReserved, if_neg Bool.false_ne_true]
    dsimp only
    rw [if_neg hfield, List.lookup_nil, skip_of_isPlain hplain.inner]
    exact (ih hplain.rest (hs.follows hskip)).mono hskip

lemma plainValue_eq_bind (key : String) (tag : Tag) : plainValue key tag =
    (readTag [key] tag).toOption.bind fun given => some (given.value? key) :=
  Option.map_eq_bind

/-- The value of a part is given by its tag alone. -/
lemma readsAs_part {key : String} (hinner : inner.isPlain base = true)
    (hkey : Tag.isField key = true) (hs : base.Over s) :
    ReadsAs base s (readTag [key] tag >>= fun given =>
      readContent [key] [] tag given s inner >>= fun r => pure (r.1.value? key, r.2))
        (plainValue key tag) := by
  rw [plainValue_eq_bind]
  refine .of_readTag fun given => ?_
  have hcontent : ReadsAs base s (readContent [key] [] tag given s inner) (some given) :=
    readsAs_readContent_nil hinner (List.forall_mem_singleton.2 hkey) hs
  exact hcontent.map (·.value? key)

theorem readsAs_readContent (hc : c.isPlain base = true)
    (hwanted : ∀ field ∈ wanted, Tag.isField field = true)
    (hparts : ∀ part ∈ parts, Tag.isField part.2 = true) (hs : base.Over s) :
    ReadsAs base s (readContent wanted parts owner found s c)
      (plainFields base owner parts found c) := by
  induction c generalizing found s with
  | finished => exact .pure (.refl base s) found
  | broken => cases hc
  | declaration rest ih => exact ih hc hs
  | text content rest ih =>
    rw [Content.isPlain, Bool.and_eq_true] at hc
    rw [readContent, if_pos hc.1]
    exact ih hc.2 hs
  | element tag inner rest _ ih =>
    have hplain := Content.plainElement_of_isPlain hc
    have hfield : localPart tag.name ∉ wanted := by
      intro hmem
      cases (hwanted _ hmem).symm.trans hplain.isField
    rw [readContent, plainFields, hplain.bindsReserved, if_neg Bool.false_ne_true]
    dsimp only
    rw [if_neg hfield]
    cases hpart : parts.lookup (localPart tag.name) with
    | none =>
      have hskip := follows_skip_of_isPlain hplain.isHarmless hplain.inner s
      rw [skip_of_isPlain hplain.inner]
      exact (ih hplain.rest (hs.follows hskip)).mono hskip
    | some key =>
      -- the value of the part is found before the rest is read
      have hkey : Tag.isField key = true := hparts _ (Table.mem_of_lookup_eq_some hpart)
      have hvalue : (if (found.lookup (localPart tag.name)).isSome then none
          else (plainPartValue base owner key tag).bind fun value =>
            plainFields base owner parts ((localPart tag.name, value) :: found) rest) =
          (if (found.lookup (localPart tag.name)).isSome then none
          else (plainPartValue base owner key tag).bind fun value =>
            some ((localPart tag.name, value) :: found)).bind fun found =>
              plainFields base owner parts found rest := by
        split
        · rfl
        · rw [Option.bind_assoc]
          rfl
      show ReadsAs base s _ (if (found.lookup (localPart tag.name)).isSome then none else _)
      rw [hvalue]
      refine ReadsAs.bind (readsAs_readField hplain.isHarmless hplain.inner hs
        fun s hs => readsAs_part hplain.inner hkey hs) fun _ s' hfollows => ?_
      exact ih hplain.rest (hs.follows hfollows)

/-- An element with fields comes to what its tag and its content give. -/
theorem readsAs_readFields (hinner : inner.isPlain base = true) (htag : tag.isHarmless base = true)
    (hwanted : ∀ field ∈ wanted, Tag.isField field = true)
    (hparts : ∀ part ∈ parts, Tag.isField part.2 = true) (hs : base.Over s) :
    ReadsAs base s (readFields wanted parts s tag inner)
      ((readTag wanted tag).toOption.bind fun given => plainFields base tag parts given inner) := by
  unfold readFields
  refine .of_readTag fun given => ?_
  have hover := hs.follows (Scopes.follows_enter htag s)
  have hcontent : ReadsAs base (s.enter tag)
      (readContent wanted parts tag given (s.enter tag) inner)
        (plainFields base tag parts given inner) :=
    readsAs_readContent hinner hwanted hparts hover
  have hread := hcontent.leave htag id
  rwa [Option.map_id] at hread

/-! ## Members -/

/-- The value of an element of which one attribute counts. -/
theorem readsAs_readValue {key : String} (hinner : inner.isPlain base = true)
    (htag : tag.isHarmless base = true) (hkey : Tag.isField key = true) (hs : base.Over s) :
    ReadsAs base s (readValue key tag inner s) (plainValue key tag) := by
  rw [plainValue_eq_bind]
  unfold readValue readFields
  rw [bind_assoc]
  refine .of_readTag fun given => ?_
  have hcontent : ReadsAs base (s.enter tag)
      (readContent [key] [] tag given (s.enter tag) inner) (some given) :=
    readsAs_readContent_nil hinner (List.forall_mem_singleton.2 hkey)
      (hs.follows (Scopes.follows_enter htag s))
  rw [bind_assoc]
  exact hcontent.leave htag (·.value? key)

lemma atMostOne_none_cons (values : List (Option (Option String))) :
    atMostOne (none :: values) = none := by
  cases values with
  | nil => rfl
  | cons value rest => rfl

/-- Elements give parts only. -/
lemma lookup_plainFields {name : String} (hname : parts.lookup name = none)
    (h : plainFields base owner parts found c = some fields) :
    fields.lookup name = found.lookup name := by
  induction c generalizing found with
  | finished =>
    cases h
    rfl
  | broken =>
    cases h
    rfl
  | declaration rest ih => exact ih h
  | text content rest ih => exact ih h
  | element tag inner rest _ ih =>
    rw [plainFields] at h
    split at h
    next key hpart =>
      split at h
      · cases h
      · obtain ⟨value, -, h⟩ := Option.bind_eq_some_iff.1 h
        rw [ih h]
        apply Table.lookup_cons_of_ne
        rintro rfl
        cases hname.symm.trans hpart
    · exact ih h

/-- The values of a part: that which was found before, and those behind it. -/
def partValues (base : Scopes) (owner : Tag) (found : Fields) (name key : String) (c : Content) :
    List (Option (Option String)) :=
  (found.lookup name).toList.map some ++
    (c.named name).map fun x => plainPartValue base owner key x.1

lemma partValues_element_of_ne {name : String} (h : localPart tag.name ≠ name) (found : Fields)
    (key : String) (inner rest : Content) :
    partValues base owner found name key (.element tag inner rest) =
      partValues base owner found name key rest := by
  rw [partValues, Content.named_element, if_neg h, partValues]

lemma partValues_cons_of_ne {name other : String} (h : name ≠ other) (value : Option String)
    (found : Fields) (key : String) (c : Content) :
    partValues base owner ((other, value) :: found) name key c =
      partValues base owner found name key c := by
  rw [partValues, Table.lookup_cons_of_ne h, partValues]

/-- What an element gives is found behind it. -/
lemma partValues_cons_self {key : String} {value : Option String}
    (hnew : found.lookup (localPart tag.name) = none)
    (hvalue : plainPartValue base owner key tag = some value) (inner rest : Content) :
    partValues base owner ((localPart tag.name, value) :: found) (localPart tag.name) key rest =
      partValues base owner found (localPart tag.name) key (.element tag inner rest) := by
  have hself : ((localPart tag.name, value) :: found).lookup (localPart tag.name) = some value :=
    Table.lookup_cons_self (localPart tag.name, value) found
  rw [partValues, partValues, hself, hnew, Content.named_element, if_pos rfl, List.map_cons, hvalue]
  rfl

/-- Fields that are there hold the value of each part. -/
lemma plainFields_eq_some {name key : String}
    (h : plainFields base owner parts found c = some fields)
    (hpart : parts.lookup name = some key) :
    atMostOne (partValues base owner found name key c) = some (fields.value? name) := by
  have hover : ∀ found : Fields, atMostOne ((found.lookup name).toList.map some ++ []) =
      some (found.value? name) := by
    intro found
    unfold Fields.value?
    cases found.lookup name with
    | none => rfl
    | some value => rfl
  induction c generalizing found with
  | finished =>
    cases h
    exact hover _
  | broken =>
    cases h
    exact hover _
  | declaration rest ih => exact ih h
  | text content rest ih => exact ih h
  | element tag inner rest _ ih =>
    rw [plainFields] at h
    by_cases hname : localPart tag.name = name
    · subst hname
      simp only [hpart] at h
      split at h
      · cases h
      next hnew =>
        obtain ⟨value, hvalue, h⟩ := Option.bind_eq_some_iff.1 h
        rw [Option.not_isSome_iff_eq_none] at hnew
        rw [← partValues_cons_self hnew hvalue]
        exact ih h
    · rw [partValues_element_of_ne hname]
      split at h
      · split at h
        · cases h
        · obtain ⟨value, -, h⟩ := Option.bind_eq_some_iff.1 h
          rw [← partValues_cons_of_ne (Ne.symm hname) value]
          exact ih h
      · exact ih h

/-- Fields that are not there miss one of the parts. -/
lemma plainFields_eq_none (h : plainFields base owner parts found c = none) :
    ∃ name key, parts.lookup name = some key ∧
      atMostOne (partValues base owner found name key c) = none := by
  induction c generalizing found with
  | finished => cases h
  | broken => cases h
  | declaration rest ih => exact ih h
  | text content rest ih => exact ih h
  | element tag inner rest _ ih =>
    rw [plainFields] at h
    split at h
    next key hpart =>
      split at h
      next hsome =>
        -- the part was found before
        obtain ⟨value, hvalue⟩ := Option.isSome_iff_exists.1 hsome
        refine ⟨_, key, hpart, ?_⟩
        rw [partValues, hvalue, Content.named_element, if_pos rfl]
        rfl
      next hnew =>
        rw [Option.not_isSome_iff_eq_none] at hnew
        cases hvalue : plainPartValue base owner key tag with
        | none =>
          refine ⟨_, key, hpart, ?_⟩
          rw [partValues, hnew, Content.named_element, if_pos rfl, List.map_cons, hvalue]
          exact atMostOne_none_cons _
        | some value =>
          rw [hvalue] at h
          obtain ⟨name, key', hname, hnone⟩ := ih h
          refine ⟨name, key', hname, ?_⟩
          by_cases hself : localPart tag.name = name
          · subst hself
            cases hname.symm.trans hpart
            rwa [← partValues_cons_self hnew hvalue]
          · rw [partValues_element_of_ne hself]
            rwa [partValues_cons_of_ne (Ne.symm hself)] at hnone
    next hpart =>
      obtain ⟨name, key, hname, hnone⟩ := ih h
      have hne : localPart tag.name ≠ name := by
        rintro rfl
        cases hname.symm.trans hpart
      exact ⟨name, key, hname, by rwa [partValues_element_of_ne hne]⟩

/-- What is found first are fields that are asked for. -/
lemma lookup_readAttributes {name : String} (hname : name ∉ wanted)
    {as : List (Option TagAttribute)} (h : readAttributes wanted found as = .ok fields) :
    fields.lookup name = found.lookup name := by
  induction as generalizing found with
  | nil =>
    cases h
    rfl
  | cons a rest ih =>
    cases a with
    | none => cases h
    | some a =>
      rw [readAttributes] at h
      split at h
      · exact ih h
      next hwanted =>
        split at h
        · cases h
        · split at h
          · cases h
          · rw [ih h]
            apply Table.lookup_cons_of_ne
            rintro rfl
            exact hwanted (Or.inr hname)

/-- The parts of an owned attribute, each with the attribute that counts. -/
def ownedParts : List (String × String) :=
  [("type", "@idref"), ("lowerValue", "@value"), ("upperValue", "@value")]

/-- The owned attribute with the given fields. -/
def ofOwnedFields (fields : Fields) : OwnedAttribute where
  name := fields.value? "@name"
  typeRef := fields.value? "type"
  lower := fields.value? "lowerValue"
  upper := fields.value? "upperValue"

/-- The parts of an attribute may stand in any order, each once. -/
lemma plainAttribute_eq (base : Scopes) (tag : Tag) (inner : Content) :
    plainAttribute base tag inner = ((readTag ["@name"] tag).toOption.bind fun given =>
      plainFields base tag ownedParts given inner).bind fun fields =>
        some (ofOwnedFields fields) := by
  unfold plainAttribute
  cases hgiven : readTag ["@name"] tag with
  | error e => rfl
  | ok given =>
    -- no part is among the fields of the tag
    have hvalues : ∀ name key, ownedParts.lookup name = some key →
        atMostOne (partValues base tag given name key inner) =
          plainPart base tag name key inner := by
      intro name key hpart
      have hname : name ∉ ["@name"] := by
        intro hmem
        rw [List.mem_singleton.1 hmem] at hpart
        cases hpart
      rw [partValues, lookup_readAttributes hname hgiven]
      rfl
    show ((plainPart base tag "type" "@idref" inner).bind fun typeRef =>
        (plainPart base tag "lowerValue" "@value" inner).bind fun lower =>
          (plainPart base tag "upperValue" "@value" inner).bind fun upper =>
            some ⟨given.value? "@name", typeRef, lower, upper⟩) =
      (plainFields base tag ownedParts given inner).bind (some <| ofOwnedFields ·)
    cases hfields : plainFields base tag ownedParts given inner with
    | some fields =>
      have hparts : ∀ name key, ownedParts.lookup name = some key →
          plainPart base tag name key inner = some (fields.value? name) := by
        intro name key hpart
        rw [← hvalues name key hpart]
        exact plainFields_eq_some hfields hpart
      rw [hparts "type" "@idref" rfl, hparts "lowerValue" "@value" rfl,
        hparts "upperValue" "@value" rfl]
      have hname : fields.value? "@name" = given.value? "@name" := by
        unfold Fields.value?
        rw [lookup_plainFields rfl hfields]
      show some _ = some (ofOwnedFields fields)
      rw [← hname]
      rfl
    | none =>
      obtain ⟨name, key, hpart, hnone⟩ := plainFields_eq_none hfields
      rw [hvalues name key hpart] at hnone
      have hmem := Table.mem_of_lookup_eq_some hpart
      simp only [ownedParts, List.mem_cons, List.not_mem_nil, or_false, Prod.mk.injEq] at hmem
      rcases hmem with ⟨rfl, rfl⟩ | ⟨rfl, rfl⟩ | ⟨rfl, rfl⟩
      · rw [hnone]
        rfl
      · simp only [hnone, Option.bind_none, Option.bind_fun_none]
      · simp only [hnone, Option.bind_none, Option.bind_fun_none]

theorem readsAs_readOwnedAttribute (hinner : inner.isPlain base = true)
    (htag : tag.isHarmless base = true) (hs : base.Over s) :
    ReadsAs base s (readOwnedAttribute tag inner s) (plainAttribute base tag inner) := by
  rw [plainAttribute_eq]
  exact (readsAs_readFields hinner htag (by decide) (by decide) hs).bind
    fun fields s' _ => .pure (.refl base s') (ofOwnedFields fields)

end UmlTyping.Xmi
