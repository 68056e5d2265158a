import UmlTyping.Proofs.Filing
import UmlTyping.Proofs.Reordering
import UmlTyping.Xmi.Reading

/-!
# Collecting

What a document comes to if the elements of one name that stand in another one are simply collected
into their list, in document order and whatever stands between them (`plainDocument`). Such a
reading has no state. Of scopes it knows those behind the outermost tag alone, by which parts of an
attribute are absent or not. It keeps what is asked of the fields: attributes have to be readable
and a part may be there once, and the elements of one list have to be written with one qualifier.

Documents that differ in the order of siblings come to elements that file the same, if siblings are
collected (`rel_plainDocument`). The induction is on the reordering: where two members change
places, neighbours in one list do, or nothing does.
-/

namespace UmlTyping.Xmi

open Xml Content

/-! ## Plain reading -/

/-- The value of the one attribute that counts of an element. -/
def plainValue (key : String) (tag : Tag) : Option (Option String) :=
  (readTag [key] tag).toOption.map (·.value? key)

/-- The value that there is, if there is at most one. -/
def atMostOne : List (Option (Option String)) → Option (Option String)
  | [] => some none
  | [value] => value
  | _ => none

/-- The value of a part with some tag, which that tag or its owner's may mark as absent. -/
def plainPartValue (base : Scopes) (owner : Tag) (key : String) (tag : Tag) :
    Option (Option String) :=
  if base.marksAbsent owner || base.marksAbsent tag then some none else plainValue key tag

/-- The value of a part. -/
def plainPart (base : Scopes) (owner : Tag) (part key : String) (inner : Content) :
    Option (Option String) :=
  atMostOne ((inner.named part).map fun x => plainPartValue base owner key x.1)

/-- The attribute that an element describes. -/
def plainAttribute (base : Scopes) (tag : Tag) (inner : Content) : Option OwnedAttribute := do
  let given ← (readTag ["@name"] tag).toOption
  let typeRef ← plainPart base tag "type" "@idref" inner
  let lower ← plainPart base tag "lowerValue" "@value" inner
  let upper ← plainPart base tag "upperValue" "@value" inner
  some { name := given.value? "@name", typeRef, lower, upper }

/-- Names with the same local part have the same qualifier. -/
def Uniform (names : List String) : Prop :=
  ∀ x ∈ names, ∀ y ∈ names, localPart x = localPart y → x = y

instance (names : List String) : Decidable (Uniform names) :=
  inferInstanceAs (Decidable (∀ x ∈ names, ∀ y ∈ names, localPart x = localPart y → x = y))

/-- The element with some members, each with its name as written, in document order. -/
def plainElement (wanted : List String) (tag : Tag) (members : List (String × Member)) :
    Option Element :=
  if Uniform (members.map (·.1)) then
    (readTag wanted tag).toOption.map fun given => .ofMembers given (members.map (·.2))
  else none

/-- What an element is as a member of a list, if it is one, given the members inside. -/
def plainMember? (base : Scopes) (isTop : Bool) (tag : Tag) (inner : Content)
    (inside : Option (List (String × Member))) : Option (Option Member) :=
  match localPart tag.name, isTop with
  | "packagedElement", _ =>
    some ((inside.bind (plainElement ["@id", "@type", "@name"] tag)).map .element)
  | "ownedAttribute", false => some ((plainAttribute base tag inner).map .attribute)
  | "ownedLiteral", false => some ((plainValue "@name" tag).map .literal)
  | "generalization", false => some ((plainValue "@general" tag).map .generalization)
  | _, _ => none

/-- Puts what an element is as a member, if it is one, in front of the members behind it. -/
def addMember (name : String) (member? : Option (Option Member))
    (members : Option (List (String × Member))) : Option (List (String × Member)) :=
  match member? with
  | none => members
  | some member => do
    let member ← member
    let members ← members
    some ((name, member) :: members)

/-- The members of lists that stand in some content, each with its name as written, in document
order. -/
def plainMembers (base : Scopes) (isTop : Bool) : Content → Option (List (String × Member))
  | .finished => some []
  | .broken => some []
  | .declaration rest => plainMembers base isTop rest
  | .text _ rest => plainMembers base isTop rest
  | .element tag inner rest =>
    addMember tag.name (plainMember? base isTop tag inner (plainMembers base false inner))
      (plainMembers base isTop rest)

/-- The model inside an element. -/
def plainModel (base : Scopes) (tag : Tag) (inner : Content) : Option Document := do
  let members ← plainMembers base true inner
  let model ← plainElement ["@name"] tag members
  some { name := model.name, elements := model.elements }

/-- The one model inside the outermost element. -/
def plainRoot (tag : Tag) (inner : Content) : Option Document := do
  let _ ← (readTag [] tag).toOption
  let model ← only? (inner.named "Model")
  if inner.isComplete then plainModel (Scopes.enter {} tag) model.1 model.2 else none

/-- What the content of a document comes to. -/
def plainDocument (c : Content) : Option Document := do
  let root ← only? c.elements
  plainRoot root.1 root.2

/-! ## Fields of reordered elements -/

variable {t t' : Tag} {c c' : Content} {base : Scopes}

lemma readTag_congr (h : t.SaysSame t') (wanted : List String) :
    readTag wanted t = readTag wanted t' := by
  unfold readTag
  rw [h.findings]

lemma plainValue_congr (h : t.SaysSame t') (key : String) :
    plainValue key t = plainValue key t' := by
  unfold plainValue
  rw [readTag_congr h]

lemma atMostOne_perm {l l' : List (Option (Option String))} (h : l.Perm l') :
    atMostOne l = atMostOne l' := by
  match l with
  | [] => rw [List.nil_perm.1 h]
  | [v] => rw [List.singleton_perm.1 h]
  | _ :: _ :: _ =>
    match l', h.length_eq with
    | _ :: _ :: _, _ => rfl

lemma marksAbsent_congr (h : t.SaysSame t') (s : Scopes) : s.marksAbsent t = s.marksAbsent t' := by
  unfold Scopes.marksAbsent
  rw [h.findings]

lemma enter_congr (h : t.SaysSame t') (s : Scopes) : s.enter t = s.enter t' := by
  unfold Scopes.enter Tag.bindings
  rw [h.attributes]

lemma plainPart_congr (htag : t.SaysSame t') (h : c.Reordered c') (part key : String) :
    plainPart base t part key c = plainPart base t' part key c' := by
  have hvalue : ∀ x y : Tag × Content, SameElement x y →
      plainPartValue base t key x.1 = plainPartValue base t key y.1 := by
    intro x y hxy
    unfold plainPartValue
    rw [marksAbsent_congr hxy.1, plainValue_congr hxy.1]
  have howner : plainPartValue base t key = plainPartValue base t' key := by
    unfold plainPartValue
    rw [marksAbsent_congr htag]
  unfold plainPart
  rw [atMostOne_perm (h.perm_named hvalue), howner]

lemma plainAttribute_congr (htag : t.SaysSame t') (h : c.Reordered c') :
    plainAttribute base t c = plainAttribute base t' c' := by
  unfold plainAttribute
  rw [readTag_congr htag, plainPart_congr htag h, plainPart_congr htag h, plainPart_congr htag h]

lemma uniform_perm {names names' : List String} (h : names.Perm names') :
    Uniform names ↔ Uniform names' := by
  unfold Uniform
  simp only [h.mem_iff]

/-! ## Members of reordered elements -/

/-- The local name of the elements that are members of this kind. -/
def Member.kind : Member → String
  | .element _ => "packagedElement"
  | .attribute _ => "ownedAttribute"
  | .literal _ => "ownedLiteral"
  | .generalization _ => "generalization"

lemma plainMember?_kind {isTop : Bool} {inside : Option (List (String × Member))} {m : Member}
    (h : plainMember? base isTop t c inside = some (some m)) : localPart t.name = m.kind := by
  unfold plainMember? at h
  split at h
  next hname =>
    obtain ⟨_, -, rfl⟩ := Option.map_eq_some_iff.1 (Option.some.inj h)
    exact hname
  next hname =>
    obtain ⟨_, -, rfl⟩ := Option.map_eq_some_iff.1 (Option.some.inj h)
    exact hname
  next hname =>
    obtain ⟨_, -, rfl⟩ := Option.map_eq_some_iff.1 (Option.some.inj h)
    exact hname
  next hname =>
    obtain ⟨_, -, rfl⟩ := Option.map_eq_some_iff.1 (Option.some.inj h)
    exact hname
  · cases h

/-- Members that are the same, but for the order of what stands inside elements. -/
inductive Member.Alike : Member → Member → Prop
  | element {e e' : Element} : e.Alike e' → Alike (.element e) (.element e')
  | attribute (a : OwnedAttribute) : Alike (.attribute a) (.attribute a)
  | literal (name : Option String) : Alike (.literal name) (.literal name)
  | generalization (general : Option String) :
    Alike (.generalization general) (.generalization general)

/-- The lists that members make up are the same, but for the order of some of them. -/
structure SameLists (ms ms' : List Member) : Prop where
  elements : SameFiling (Element.ofMembers [] ms).elements (Element.ofMembers [] ms').elements
  attributes : (Element.ofMembers [] ms).attributes = (Element.ofMembers [] ms').attributes
  literals : (Element.ofMembers [] ms).literals = (Element.ofMembers [] ms').literals
  generalizations : (Element.ofMembers [] ms).generalizations.Perm
    (Element.ofMembers [] ms').generalizations

namespace SameLists

variable {ms ms' ms'' : List Member} {m m' : Member}

lemma refl (ms : List Member) : SameLists ms ms := ⟨.refl _, rfl, rfl, .refl _⟩

lemma symm (h : SameLists ms ms') : SameLists ms' ms :=
  ⟨h.elements.symm, h.attributes.symm, h.literals.symm, h.generalizations.symm⟩

lemma trans (h : SameLists ms ms') (h' : SameLists ms' ms'') : SameLists ms ms'' :=
  ⟨h.elements.trans h'.elements, h.attributes.trans h'.attributes, h.literals.trans h'.literals,
    h.generalizations.trans h'.generalizations⟩

lemma cons (hm : m.Alike m') (h : SameLists ms ms') : SameLists (m :: ms) (m' :: ms') := by
  match hm with
  | .element he => exact ⟨h.elements.cons he, h.attributes, h.literals, h.generalizations⟩
  | .attribute a =>
    exact ⟨h.elements, congrArg (a :: ·) h.attributes, h.literals, h.generalizations⟩
  | .literal name =>
    exact ⟨h.elements, h.attributes, congrArg (name :: ·) h.literals, h.generalizations⟩
  | .generalization general =>
    exact ⟨h.elements, h.attributes, h.literals, h.generalizations.cons general⟩

/-- Neighbours may change places, unless their order counts. -/
lemma swap (h : m.kind = m'.kind → m.kind ∉ orderedNames) (ms : List Member) :
    SameLists (m :: m' :: ms) (m' :: m :: ms) := by
  cases m <;> cases m' <;> try exact ⟨.refl _, rfl, rfl, .refl _⟩
  -- what is left are the members of one kind
  next e e' => exact ⟨.swap e e' _, rfl, rfl, .refl _⟩
  next => exact absurd (List.mem_cons_self) (h rfl)
  next => exact absurd (List.mem_cons_of_mem _ List.mem_cons_self) (h rfl)
  next general general' => exact ⟨.refl _, rfl, rfl, .swap _ _ _⟩

end SameLists

/-- Members with their names that are the same, but for the order of some of them. -/
structure SameMembers (ms ms' : List (String × Member)) : Prop where
  names : (ms.map (·.1)).Perm (ms'.map (·.1))
  lists : SameLists (ms.map (·.2)) (ms'.map (·.2))

lemma SameMembers.refl (ms : List (String × Member)) : SameMembers ms ms := ⟨.refl _, .refl _⟩

/-- An element is what its members make it. -/
lemma rel_plainElement {ms ms' : List (String × Member)} (htag : t.SaysSame t')
    (h : SameMembers ms ms') (wanted : List String) :
    Option.Rel Element.Alike (plainElement wanted t ms) (plainElement wanted t' ms') := by
  unfold plainElement
  rw [readTag_congr htag]
  by_cases huniform : Uniform (ms.map (·.1))
  · rw [if_pos huniform, if_pos ((uniform_perm h.names).1 huniform)]
    cases (readTag wanted t').toOption with
    | none => exact .none
    | some given =>
      exact .some ⟨rfl, rfl, rfl, h.lists.attributes, h.lists.literals, h.lists.generalizations,
        h.lists.elements⟩
  · rw [if_neg huniform, if_neg fun h' => huniform ((uniform_perm h.names).2 h')]
    exact .none

lemma rel_plainMember? {inside inside' : Option (List (String × Member))} (htag : t.SaysSame t')
    (h : c.Reordered c') (hinside : Option.Rel SameMembers inside inside') (isTop : Bool) :
    Option.Rel (Option.Rel Member.Alike) (plainMember? base isTop t c inside)
      (plainMember? base isTop t' c' inside') := by
  unfold plainMember?
  rw [htag.name]
  split
  · refine .some (rel_map (rel_bind hinside fun ms ms' hms => ?_) fun e e' he => .element he)
    exact rel_plainElement htag hms _
  · rw [plainAttribute_congr htag h]
    exact .some (rel_map_self _ .attribute)
  · rw [plainValue_congr htag]
    exact .some (rel_map_self _ .literal)
  · rw [plainValue_congr htag]
    exact .some (rel_map_self _ .generalization)
  · exact .none

/-! ## Reordered documents -/

namespace SameMembers

variable {ms ms' ms'' : List (String × Member)} {m m' : Member}

lemma symm (h : SameMembers ms ms') : SameMembers ms' ms := ⟨h.names.symm, h.lists.symm⟩

lemma trans (h : SameMembers ms ms') (h' : SameMembers ms' ms'') : SameMembers ms ms'' :=
  ⟨h.names.trans h'.names, h.lists.trans h'.lists⟩

lemma cons (name : String) (hm : m.Alike m') (h : SameMembers ms ms') :
    SameMembers ((name, m) :: ms) ((name, m') :: ms') :=
  ⟨h.names.cons name, h.lists.cons hm⟩

lemma swap {name name' : String} (h : m.kind = m'.kind → m.kind ∉ orderedNames)
    (ms : List (String × Member)) :
    SameMembers ((name, m) :: (name', m') :: ms) ((name', m') :: (name, m) :: ms) :=
  ⟨.swap _ _ _, .swap h _⟩

end SameMembers

lemma rel_addMember {x y : Option (Option Member)} {ms ms' : Option (List (String × Member))}
    (name : String) (hxy : Option.Rel (Option.Rel Member.Alike) x y)
    (hms : Option.Rel SameMembers ms ms') :
    Option.Rel SameMembers (addMember name x ms) (addMember name y ms') := by
  cases hxy with
  | none => exact hms
  | some hm =>
    refine rel_bind hm fun m m' hm => ?_
    exact rel_bind hms fun ms ms' hms => .some (hms.cons name hm)

/-- Neighbours are added in either order, unless the order counts. -/
lemma rel_addMember_swap {x y : Option (Option Member)} (name name' : String)
    (h : ∀ m m', x = some (some m) → y = some (some m') → m.kind = m'.kind →
      m.kind ∉ orderedNames) (ms : Option (List (String × Member))) :
    Option.Rel SameMembers (addMember name x (addMember name' y ms))
      (addMember name' y (addMember name x ms)) := by
  match x, y with
  | none, y => exact rel_refl SameMembers.refl _
  | x, none => exact rel_refl SameMembers.refl _
  | some none, some none => exact .none
  | some none, some (some m') =>
    cases ms with
    | none => exact .none
    | some ms => exact .none
  | some (some m), some none =>
    cases ms with
    | none => exact .none
    | some ms => exact .none
  | some (some m), some (some m') =>
    cases ms with
    | none => exact .none
    | some ms => exact .some (.swap (h m m' rfl rfl) ms)

theorem rel_plainMembers (h : c.Reordered c') (isTop : Bool) :
    Option.Rel SameMembers (plainMembers base isTop c) (plainMembers base isTop c') := by
  induction h generalizing isTop with
  | finished => exact rel_refl SameMembers.refl _
  | broken => exact rel_refl SameMembers.refl _
  | declaration rest => exact rel_refl SameMembers.refl _
  | text content rest => exact rel_refl SameMembers.refl _
  | element htag hinner _ ihinner ihrest =>
    rw [plainMembers, plainMembers, htag.name]
    exact rel_addMember _ (rel_plainMember? htag hinner (ihinner false) isTop) (ihrest isTop)
  | swap inner inner' rest hswap =>
    -- members of one kind are elements of one local name
    refine rel_addMember_swap _ _ (fun m m' hm hm' hkind => ?_) _
    rw [← plainMember?_kind hm, ← plainMember?_kind hm'] at hkind
    rw [← plainMember?_kind hm]
    exact hswap hkind
  | symm _ ih => exact rel_symm (fun _ _ => SameMembers.symm) (ih isTop)
  | trans _ _ ih ih' => exact rel_trans (fun _ _ _ => SameMembers.trans) (ih isTop) (ih' isTop)

theorem rel_plainModel (htag : t.SaysSame t') (h : c.Reordered c') :
    Option.Rel (fun d d' => SameFiling d.elements d'.elements) (plainModel base t c)
      (plainModel base t' c') := by
  refine rel_bind (rel_plainMembers h true) fun ms ms' hms => ?_
  refine rel_bind (rel_plainElement htag hms _) fun e e' he => ?_
  exact .some he.elements

theorem rel_plainRoot (htag : t.SaysSame t') (h : c.Reordered c') :
    Option.Rel (fun d d' => SameFiling d.elements d'.elements) (plainRoot t c)
      (plainRoot t' c') := by
  have hmodel : Option.Rel (fun d d' : Document => SameFiling d.elements d'.elements)
      ((only? (c.named "Model")).bind fun model =>
        if c.isComplete then plainModel (Scopes.enter {} t) model.1 model.2 else none)
      ((only? (c'.named "Model")).bind fun model =>
        if c'.isComplete then plainModel (Scopes.enter {} t') model.1 model.2 else none) := by
    refine rel_bind (h.rel_only_named "Model") fun x y hxy => ?_
    rw [h.isComplete_eq, enter_congr htag]
    split
    · exact rel_plainModel hxy.1 hxy.2
    · exact .none
  unfold plainRoot
  rw [readTag_congr htag]
  cases (readTag [] t').toOption with
  | none => exact .none
  | some _ => exact hmodel

/-- Documents that differ in the order of siblings come to elements that file the same. -/
theorem rel_plainDocument (h : c.Reordered c') :
    Option.Rel (fun d d' => SameFiling d.elements d'.elements) (plainDocument c)
      (plainDocument c') :=
  rel_bind h.rel_only_element fun _ _ hxy => rel_plainRoot hxy.1 hxy.2

end UmlTyping.Xmi
