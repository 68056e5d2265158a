import UmlTyping.Proofs.Importing

/-!
# Packages that identifiers encode

Three places ask an identifier for its package: compiling an entry, referring to one, and composing
modules. An identifier may encode none, and each place has an error for that. None of these errors
can come of a loaded model (`generate_neverUnowned`): an entry is found by way of the package that
its identifier encodes, and nothing else is ever asked.

* `find?_package?`: what is found encodes a package;
* `compile_ne_invalidIdentifier`, `resolve_ne_invalidIdentifier`: no entry that is found, and so no
  resolution, fails for want of one;
* `generate_eq_error_iff`: composing the definitions of a resolution cannot fail, so a generation
  fails exactly as its resolution does.
-/

namespace UmlTyping

variable {m : Model} {e : Entry} {owner : String} {id x : Identifier}

/-- Where an identifier encodes a path of packages, that path has a last segment. -/
theorem Identifier.package?_eq_map {id : Identifier} {path : String}
    (h : id.qualifiedPackage? = some path) :
    id.package? = some (String.ofList (lastSegment path.toList)) := by
  unfold package?
  rw [h]
  rfl

/-- What is found is looked up in the package that it encodes, so it encodes one. -/
theorem Model.find?_package? (h : m.find? id = some e) : ∃ package, id.package? = some package := by
  simp only [Model.find?, bind, Option.bind_eq_some_iff] at h
  obtain ⟨path, hpath, -, -, -⟩ := h
  exact ⟨_, Identifier.package?_eq_map hpath⟩

/-- The entry that is looked up for a reference encodes a package. -/
theorem TypeRef.resolve_ne_invalidIdentifier :
    TypeRef.resolve m id owner ≠ .error (.model (.invalidIdentifier x)) := by
  intro h
  rcases TypeRef.resolve_eq_error_iff.1 h with ⟨-, heq⟩ | ⟨hfound, hnone, -⟩
  · cases heq
  · obtain ⟨e, he⟩ := Option.ne_none_iff_exists'.1 hfound
    obtain ⟨package, hpackage⟩ := Model.find?_package? he
    rw [hnone] at hpackage
    cases hpackage

/-- Compiling an entry asks its own identifier for a package first, and then those of the entries
that it refers to. -/
theorem Entry.compile_ne_invalidIdentifier (howner : ∃ package, e.id.package? = some package) :
    (e.compile m).result ≠ .error (.model (.invalidIdentifier x)) := by
  intro h
  rcases result_compile m e with ⟨-, heq⟩ | ⟨-, -, hnone, -⟩ | ⟨kind, owner, -, -, heq⟩
  · rw [heq] at h
    cases h
  · obtain ⟨package, hpackage⟩ := howner
    rw [hnone] at hpackage
    cases hpackage
  rw [heq] at h
  cases kind with
  | enumeration =>
    unfold outcomeAs compileEnumeration at h
    dsimp only at h
    split at h
    · cases h
    · cases h
  | primitive => cases h
  | record =>
    rcases compileRecord_eq_error h with ⟨a, -, hresolve | hname⟩ | hbase
    · rcases (Attribute.resolve_eq_error hresolve).2 with harity | href
      · cases harity
      · exact TypeRef.resolve_ne_invalidIdentifier href
    · cases hname
    · obtain ⟨general, -, ⟨-, hcycle⟩ | href⟩ := resolveBase_eq_error hbase
      · cases hcycle
      · exact TypeRef.resolve_ne_invalidIdentifier href

namespace Model

variable {roots : List Identifier} {err : DefinitionError}

/-- In a coherent model an entry is found under its own identifier. -/
theorem Coherent.package?_of_find? (hm : m.Coherent) (h : m.find? id = some e) :
    ∃ package, e.id.package? = some package := by
  rw [hm.id_eq h]
  exact find?_package? h

theorem resolve_ne_invalidIdentifier (hm : m.Coherent) (roots : List Identifier) :
    (m.resolve roots).result ≠ .error (.model (.invalidIdentifier x)) := by
  intro h
  rcases error_of_resolve h with ⟨id, -, hfails⟩ | ⟨path, heq, -⟩
  · rcases define_eq_error_iff.1 hfails with ⟨-, heq⟩ | ⟨e, he, hcompile⟩
    · cases heq
    · exact Entry.compile_ne_invalidIdentifier (hm.package?_of_find? he) hcompile
  · cases heq

/-- A generation fails as its resolution does: what is resolved can be composed. -/
theorem generate_eq_error_iff (hm : m.Coherent) :
    (m.generate roots).result = .error err ↔ (m.resolve roots).result = .error err := by
  unfold generate
  rw [Run.result_bind_eq_error_iff]
  constructor
  · rintro (h | ⟨ds, hds, hcompose⟩)
    · exact h
    · obtain ⟨ms, hms, -⟩ :=
        Modules.compose_composedOf (encoded_of_ordersClosure (ordersClosure_of_resolve hm hds))
      cases hms.symm.trans hcompose
  · exact Or.inl

/-- A generation never comes upon an identifier that encodes no package, and only its resolution can
fail. -/
structure NeverUnowned (m : Model) (roots : List Identifier) : Prop where
  /-- An entry that is found encodes a package, so it is compiled for that. -/
  compile : ∀ id e, m.find? id = some e → ∃ package, e.id.package? = some package
  /-- A reference is to an entry that encodes a package, or to none. -/
  reference : ∀ id owner x, TypeRef.resolve m id owner ≠ .error (.model (.invalidIdentifier x))
  /-- What the definitions of a resolution depend on encodes a package. -/
  dependency : ∀ ds, (m.resolve roots).result = .ok ds → ∀ d ∈ ds, ∀ b ∈ d.dependencies,
    ∃ package, Modules.packageOf b = .ok package
  /-- The definitions of a resolution can be composed. -/
  compose : ∀ ds, (m.resolve roots).result = .ok ds →
    ∃ ms, (Modules.compose (ds.map (·.piece))).result = .ok ms
  resolve : ∀ x, (m.resolve roots).result ≠ .error (.model (.invalidIdentifier x))
  generate : ∀ x, (m.generate roots).result ≠ .error (.model (.invalidIdentifier x))
  /-- A generation fails exactly as its resolution does. -/
  fails_iff : ∀ err, (m.generate roots).result = .error err ↔ (m.resolve roots).result = .error err

theorem generate_neverUnowned (hm : m.IsLoaded) (roots : List Identifier) :
    m.NeverUnowned roots := by
  have hcoherent : m.Coherent := hm.coherent
  refine ⟨?_, ?_, ?_, ?_, ?_, ?_, fun err => generate_eq_error_iff hcoherent⟩
  · intro id e he
    exact hcoherent.package?_of_find? he
  · intro id owner x
    exact TypeRef.resolve_ne_invalidIdentifier
  · intro ds hds d hd b hb
    have hencoded := encoded_of_ordersClosure (ordersClosure_of_resolve hcoherent hds)
    obtain ⟨package, hpackage⟩ := hencoded d.piece (List.mem_map_of_mem hd) b hb
    refine ⟨package, ?_⟩
    unfold Modules.packageOf
    rw [hpackage]
  · intro ds hds
    obtain ⟨ms, hms, -⟩ := Modules.compose_composedOf
      (encoded_of_ordersClosure (ordersClosure_of_resolve hcoherent hds))
    exact ⟨ms, hms⟩
  · intro x
    exact resolve_ne_invalidIdentifier hcoherent roots
  · intro x h
    exact resolve_ne_invalidIdentifier hcoherent roots ((generate_eq_error_iff hcoherent).1 h)

/-- A document with an identifier that encodes no package, filed where scalars are, and with others
that end a path in an empty segment. -/
def strayDocument : String :=
  "<XMI><Model>
    <packagedElement type='uml:Package' name='PrimitiveTypes'>
      <packagedElement type='uml:PrimitiveType' id='Stray' name='Stray'/>
    </packagedElement>
    <packagedElement type='uml:Package' name='box.'>
      <packagedElement type='uml:PrimitiveType' id='ID_box..Lid' name='Lid'/>
      <packagedElement type='uml:Class' id='ID_box..Box' name='Box'>
        <ownedAttribute name='stray'><type idref='Stray'/></ownedAttribute>
        <ownedAttribute name='lid'><type idref='ID_box..Lid'/></ownedAttribute>
      </packagedElement>
    </packagedElement>
  </Model></XMI>"

/-- The model that the document holds. -/
def strays : Model where
  packages := Table.ofList
    [("PrimitiveTypes", ⟨"PrimitiveTypes", Table.ofList
      [("Stray", ⟨"Stray", "uml:PrimitiveType", "Stray", [], [], none⟩)]⟩),
     ("box.", ⟨"box.", Table.ofList
      [("ID_box..Lid", ⟨"ID_box..Lid", "uml:PrimitiveType", "Lid", [], [], none⟩),
       ("ID_box..Box", ⟨"ID_box..Box", "uml:Class", "Box", [],
         [⟨"stray", "Stray", "1", "1"⟩, ⟨"lid", "ID_box..Lid", "1", "1"⟩], none⟩)]⟩)]

set_option maxRecDepth 100000 in
theorem load_strayDocument : (load strayDocument.toUTF8).result = .ok strays := by
  unfold strayDocument
  apply load_ofList
  decide +kernel

/-- The stray entry is a scalar to others, and cannot be found itself. -/
theorem strays_neverUnowned : strays.files primitivePackage "Stray" = true ∧
    strays.find? "Stray" = none ∧ Identifier.package? "Stray" = none ∧
    (∃ e, strays.find? "ID_box..Box" = some e) ∧ Identifier.package? "ID_box..Box" = some "" ∧
    strays.NeverUnowned ["ID_box..Box", "Stray"] := by
  refine ⟨by decide +kernel, by decide +kernel, by decide +kernel, ?_, by decide +kernel, ?_⟩
  · exact Option.isSome_iff_exists.1 (by decide +kernel)
  · exact generate_neverUnowned ⟨_, load_strayDocument⟩ _

end Model

end UmlTyping
