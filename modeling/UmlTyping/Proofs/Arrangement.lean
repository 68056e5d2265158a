import UmlTyping.Generation
import UmlTyping.Proofs.Listing

/-!
# The arrangement of a document

How the elements of a document are arranged does not matter to its model. Siblings may stand in any
order and interleaved in any way, at any depth, as long as the attributes of a record and the
literals of an enumeration keep theirs, and no two packages share their name (`load_reordered`).

Each stage of loading depends on order: members are collected in document order, packages are told
apart from other members, anonymous ones passed over, nested packages walked behind their owners,
and entries refused if their identifier is taken. Collecting turns reordered siblings into reordered
lists, and filing turns lists in any order into the same tables.

That siblings are collected holds of plain documents only. In others two things give order a
meaning (`arrangement_matters`): text is passed over in front of the members of a list and refused
behind them, and a binding outlives the element that makes it, so that it decides for a part behind
that element whether `nil` marks it as absent.
-/

namespace UmlTyping.Model

open Xmi (packagesIn plainDocument SameFiling)
open Xml (Content Tag)

/-! ## The model of a collected document -/

lemma toOption_decodeDocument {bytes : ByteArray} {text : String}
    (htext : Utf8.decode bytes = .ok text)
    (hplain : (Content.ofDocument text).isPlainDocument = true) :
    (decodeDocument bytes).toOption = plainDocument (.ofDocument text) := by
  rw [← Xmi.ofContent_of_isPlainDocument hplain, decodeDocument, htext]
  exact toOption_mapError _ _

lemma toOption_load (bytes : ByteArray) : (load bytes).result.toOption =
    (decodeDocument bytes).toOption.bind fun d => (ofDocument d).result.toOption := by
  rw [load, Run.result_bind, Run.result_ofExcept]
  cases decodeDocument bytes with
  | error e => rfl
  | ok d => rfl

variable {bytes bytes' : ByteArray} {text text' : String}

/-- Documents in different arrangements have the same model, or neither has one. -/
lemma toOption_load_eq (htext : Utf8.decode bytes = .ok text)
    (htext' : Utf8.decode bytes' = .ok text')
    (hplain : (Content.ofDocument text).isPlainDocument = true)
    (hplain' : (Content.ofDocument text').isPlainDocument = true)
    (h : (Content.ofDocument text).Reordered (.ofDocument text'))
    (hnames : ∀ d, decodeDocument bytes = .ok d →
      ((packagesIn d.elements).filterMap (·.name)).Nodup) :
    (load bytes).result.toOption = (load bytes').result.toOption := by
  have hdocument : Option.Rel (fun d d' : Xmi.Document => SameFiling d.elements d'.elements)
      (decodeDocument bytes).toOption (decodeDocument bytes').toOption := by
    rw [toOption_decodeDocument htext hplain, toOption_decodeDocument htext' hplain']
    exact Xmi.rel_plainDocument h
  rw [toOption_load, toOption_load]
  refine bind_eq_of_rel hdocument fun d d' hd hsame => ?_
  exact toOption_ofDocument (hnames d (toOption_eq_some_iff.1 hd)) hsame

/-- The arrangement of a plain document decides neither whether it has a model nor which, nor what
is generated from it. -/
theorem load_reordered (htext : Utf8.decode bytes = .ok text)
    (htext' : Utf8.decode bytes' = .ok text')
    (hplain : (Content.ofDocument text).isPlainDocument = true)
    (hplain' : (Content.ofDocument text').isPlainDocument = true)
    (h : (Content.ofDocument text).Reordered (.ofDocument text'))
    (hnames : ∀ d, decodeDocument bytes = .ok d →
      ((packagesIn d.elements).filterMap (·.name)).Nodup) :
    ((∃ m, (load bytes).result = .ok m) ↔ ∃ m, (load bytes').result = .ok m) ∧
      ∀ m m', (load bytes).result = .ok m → (load bytes').result = .ok m' →
        m = m' ∧ ∀ roots, m.generate roots = m'.generate roots := by
  have hload : ∀ m, (load bytes).result = .ok m ↔ (load bytes').result = .ok m := by
    intro m
    rw [← toOption_eq_some_iff, ← toOption_eq_some_iff,
      toOption_load_eq htext htext' hplain hplain' h hnames]
  refine ⟨exists_congr hload, fun m m' hm hm' => ?_⟩
  have hsame : m = m' := Except.ok.inj (((hload m).1 hm).symm.trans hm')
  subst hsame
  exact ⟨rfl, fun _ => rfl⟩

/-! ## Two arrangements -/

/-- Two packages, and in the first a record behind a comment. A part of its attribute is absent. -/
def neatDocument : String :=
  "<XMI xmlns:xsi='http://www.w3.org/2001/XMLSchema-instance'><Model>
    <packagedElement type='uml:Package' name='flight'>
      <ownedComment/>
      <packagedElement type='uml:Class' id='ID_flight.Leg' name='Leg'>
        <generalization general='ID_flight.Part'/>
        <ownedAttribute name='stop'>
          <lowerValue xsi:nil='true' value='7'/><type idref='ID_common.Text'/>
        </ownedAttribute>
      </packagedElement>
    </packagedElement>
    <packagedElement type='uml:Package' name='common'/>
  </Model></XMI>"

/-- The same elements, in another order at each depth. -/
def shuffledDocument : String :=
  "<XMI xmlns:xsi='http://www.w3.org/2001/XMLSchema-instance'><Model>
    <packagedElement type='uml:Package' name='common'/>
    <packagedElement type='uml:Package' name='flight'>
      <packagedElement type='uml:Class' id='ID_flight.Leg' name='Leg'>
        <ownedAttribute name='stop'>
          <type idref='ID_common.Text'/><lowerValue xsi:nil='true' value='7'/>
        </ownedAttribute>
        <generalization general='ID_flight.Part'/>
      </packagedElement>
      <ownedComment/>
    </packagedElement>
  </Model></XMI>"

/-- The outermost tag of the documents. It binds the qualifier that marks parts as absent. -/
def rootTag : Tag :=
  ⟨"XMI", " xmlns:xsi='http://www.w3.org/2001/XMLSchema-instance'".toList⟩

/-- An element with its attributes as written. -/
def markup (name attributes : String) (inner : List (Tag × Content)) : Tag × Content :=
  (⟨name, attributes.toList⟩, .ofElements inner)

set_option maxRecDepth 100000 in
theorem content_neatDocument : Content.ofDocument neatDocument =
    .element rootTag (.ofElements [markup "Model" ""
      [markup "packagedElement" " type='uml:Package' name='flight'"
        [markup "ownedComment" "" [],
         markup "packagedElement" " type='uml:Class' id='ID_flight.Leg' name='Leg'"
          [markup "generalization" " general='ID_flight.Part'" [],
           markup "ownedAttribute" " name='stop'"
            [markup "lowerValue" " xsi:nil='true' value='7'" [],
             markup "type" " idref='ID_common.Text'" []]]],
       markup "packagedElement" " type='uml:Package' name='common'" []]]) .broken := by
  unfold Content.ofDocument neatDocument
  rw [scan_ofList]
  decide +kernel

set_option maxRecDepth 100000 in
theorem content_shuffledDocument : Content.ofDocument shuffledDocument =
    .element rootTag (.ofElements [markup "Model" ""
      [markup "packagedElement" " type='uml:Package' name='common'" [],
       markup "packagedElement" " type='uml:Package' name='flight'"
        [markup "packagedElement" " type='uml:Class' id='ID_flight.Leg' name='Leg'"
          [markup "ownedAttribute" " name='stop'"
            [markup "type" " idref='ID_common.Text'" [],
             markup "lowerValue" " xsi:nil='true' value='7'" []],
           markup "generalization" " general='ID_flight.Part'" []],
         markup "ownedComment" "" []]]]) .broken := by
  unfold Content.ofDocument shuffledDocument
  rw [scan_ofList]
  decide +kernel

lemma sameElement_markup (name attributes : String) {l l' : List (Tag × Content)}
    (h : (Content.ofElements l).Reordered (.ofElements l')) :
    Content.SameElement (markup name attributes l) (markup name attributes l') :=
  ⟨.refl _, h⟩

theorem reordered_shuffledDocument :
    (Content.ofDocument neatDocument).Reordered (.ofDocument shuffledDocument) := by
  rw [content_neatDocument, content_shuffledDocument]
  refine .element (.refl _) (Content.reordered_single (sameElement_markup _ _ ?_)) .broken
  -- the packages, the members of the first, the parts of the record and those of its attribute
  refine Content.reordered_pair (by decide +kernel) (sameElement_markup _ _ ?_) (.refl _)
  refine Content.reordered_pair (by decide +kernel) (.refl _) (sameElement_markup _ _ ?_)
  refine Content.reordered_pair (by decide +kernel) (.refl _) (sameElement_markup _ _ ?_)
  exact Content.reordered_pair (by decide +kernel) (.refl _) (.refl _)

set_option maxRecDepth 100000 in
/-- The packages of the document have names of their own, and it has a model. -/
theorem parse_neatDocument : ((Xmi.Document.parse neatDocument).toOption.map fun d =>
    (decide ((packagesIn d.elements).filterMap (·.name)).Nodup,
      (ofDocument d).result.toOption.isSome)) = some (true, true) := by
  unfold Xmi.Document.parse
  rw [content_neatDocument]
  decide +kernel

/-- The two documents have one model. -/
theorem shuffled_load : ∃ m, (load neatDocument.toUTF8).result = .ok m ∧
    (load shuffledDocument.toUTF8).result = .ok m := by
  have hneat : (Content.ofDocument neatDocument).isPlainDocument = true := by
    rw [content_neatDocument]
    decide +kernel
  have hshuffled : (Content.ofDocument shuffledDocument).isPlainDocument = true := by
    rw [content_shuffledDocument]
    decide +kernel
  obtain ⟨d, hd, hview⟩ := exists_of_toOption_map parse_neatDocument
  rw [Prod.mk.injEq] at hview
  have hnames : ∀ d, decodeDocument neatDocument.toUTF8 = .ok d →
      ((packagesIn d.elements).filterMap (·.name)).Nodup := by
    intro d' hd'
    rw [decodeDocument_toUTF8, hd] at hd'
    cases hd'
    exact of_decide_eq_true hview.1
  obtain ⟨m, hm⟩ := Option.isSome_iff_exists.1 hview.2
  have hload : (load neatDocument.toUTF8).result = .ok m := by
    rw [load_toUTF8, hd]
    exact eq_ok_of_toOption hm
  obtain ⟨hiff, hsame⟩ := load_reordered (Utf8.decode_toUTF8 _) (Utf8.decode_toUTF8 _) hneat
    hshuffled reordered_shuffledDocument hnames
  obtain ⟨m', hm'⟩ := hiff.1 ⟨m, hload⟩
  have hmodel : m = m' := (hsame m m' hload hm').1
  exact ⟨m, hload, hmodel ▸ hm'⟩

/-! ## Documents that are not plain -/

/-- A record behind a comment and text. -/
def textAheadDocument : String :=
  "<XMI xmlns:xsi='http://www.w3.org/2001/XMLSchema-instance'><Model>
    <packagedElement type='uml:Package' name='flight'>
      <ownedComment/>loose<packagedElement type='uml:Class' id='ID_flight.Leg' name='Leg'/>
    </packagedElement>
  </Model></XMI>"

/-- The comment and the record in the other order, which leaves the text behind the record. -/
def textBehindDocument : String :=
  "<XMI xmlns:xsi='http://www.w3.org/2001/XMLSchema-instance'><Model>
    <packagedElement type='uml:Package' name='flight'>
      <packagedElement type='uml:Class' id='ID_flight.Leg' name='Leg'/>loose<ownedComment/>
    </packagedElement>
  </Model></XMI>"

/-- An attribute in which a note stands in front of a part. The note binds the qualifier that marks
the part as absent to another namespace. -/
def noteAheadDocument : String :=
  "<XMI xmlns:xsi='http://www.w3.org/2001/XMLSchema-instance'><Model>
    <packagedElement type='uml:Package' name='flight'>
      <packagedElement type='uml:Class' id='ID_flight.Leg' name='Leg'>
        <ownedAttribute name='stop'>
          <type idref='ID_common.Text'/>
          <note xmlns:xsi='urn:notes'>late</note><lowerValue xsi:nil='true' value='7'/>
        </ownedAttribute>
      </packagedElement>
    </packagedElement>
  </Model></XMI>"

/-- The note and the part in the other order. -/
def noteBehindDocument : String :=
  "<XMI xmlns:xsi='http://www.w3.org/2001/XMLSchema-instance'><Model>
    <packagedElement type='uml:Package' name='flight'>
      <packagedElement type='uml:Class' id='ID_flight.Leg' name='Leg'>
        <ownedAttribute name='stop'>
          <type idref='ID_common.Text'/>
          <lowerValue xsi:nil='true' value='7'/><note xmlns:xsi='urn:notes'>late</note>
        </ownedAttribute>
      </packagedElement>
    </packagedElement>
  </Model></XMI>"

/-- An element with its attributes as written, and what follows it. -/
def marked (name attributes : String) (inner rest : Content) : Content :=
  .element ⟨name, attributes.toList⟩ inner rest

/-- The content of a document with one package, given what the package holds. -/
def flightContent (inner : Content) : Content :=
  .element rootTag (marked "Model" "" (marked "packagedElement" " type='uml:Package' name='flight'"
    inner .finished) .finished) .broken

/-- A comment, and what follows it. -/
def comment (rest : Content) : Content := marked "ownedComment" "" .finished rest

/-- A record, and what follows it. -/
def leg (inner rest : Content) : Content :=
  marked "packagedElement" " type='uml:Class' id='ID_flight.Leg' name='Leg'" inner rest

/-- A record with one attribute, given what stands in that behind its type. -/
def legWith (parts : Content) : Content :=
  leg (marked "ownedAttribute" " name='stop'" (marked "type" " idref='ID_common.Text'" .finished
    parts) .finished) .finished

/-- A part that the instance namespace marks as absent, and what follows it. -/
def absentPart (rest : Content) : Content :=
  marked "lowerValue" " xsi:nil='true' value='7'" .finished rest

/-- A note, and what follows it. -/
def note (rest : Content) : Content :=
  marked "note" " xmlns:xsi='urn:notes'" (.text (some "late") .finished) rest

set_option maxRecDepth 100000 in
theorem content_textAheadDocument : Content.ofDocument textAheadDocument =
    flightContent (comment (.text (some "loose") (leg .finished .finished))) := by
  unfold Content.ofDocument textAheadDocument
  rw [scan_ofList]
  decide +kernel

set_option maxRecDepth 100000 in
theorem content_textBehindDocument : Content.ofDocument textBehindDocument =
    flightContent (leg .finished (.text (some "loose") (comment .finished))) := by
  unfold Content.ofDocument textBehindDocument
  rw [scan_ofList]
  decide +kernel

set_option maxRecDepth 100000 in
theorem content_noteAheadDocument : Content.ofDocument noteAheadDocument =
    flightContent (legWith (note (absentPart .finished))) := by
  unfold Content.ofDocument noteAheadDocument
  rw [scan_ofList]
  decide +kernel

set_option maxRecDepth 100000 in
theorem content_noteBehindDocument : Content.ofDocument noteBehindDocument =
    flightContent (legWith (absentPart (note .finished))) := by
  unfold Content.ofDocument noteBehindDocument
  rw [scan_ofList]
  decide +kernel

lemma reordered_flightContent {c c' : Content} (h : c.Reordered c') :
    (flightContent c).Reordered (flightContent c') :=
  .element (.refl _) (.element (.refl _) (.element (.refl _) h .finished) .finished) .broken

/-- The lower bounds of the attributes that a model describes. -/
def lowerBounds (m : Model) : List String := m.entries.flatMap fun e => e.attributes.map (·.lower)

/-- Whether the packages of a document have names of their own, and the bounds in its model. -/
def glance (d : Xmi.Document) : Bool × Option (List String) :=
  (decide ((packagesIn d.elements).filterMap (·.name)).Nodup,
    (ofDocument d).result.toOption.map lowerBounds)

/-- Documents with the same elements but for the order of siblings, in which packages have names of
their own. -/
structure SameButForOrder (text text' : String) : Prop where
  reordered : (Content.ofDocument text).Reordered (.ofDocument text')
  names : ∀ d, decodeDocument text.toUTF8 = .ok d →
    ((packagesIn d.elements).filterMap (·.name)).Nodup

/-- What is known of a document that comes to a model. -/
lemma load_of_glance {document : String} {bounds : List String}
    (h : (Xmi.Document.parse document).toOption.map glance = some (true, some bounds)) :
    (∀ d, decodeDocument document.toUTF8 = .ok d →
      ((packagesIn d.elements).filterMap (·.name)).Nodup) ∧
      ∃ m, (load document.toUTF8).result = .ok m ∧ m.lowerBounds = bounds := by
  obtain ⟨d, hd, hview⟩ := exists_of_toOption_map h
  obtain ⟨hnames, hmodel⟩ := Prod.mk.inj hview
  obtain ⟨m, hm, hbounds⟩ := exists_of_toOption_map hmodel
  refine ⟨fun d' hd' => ?_, m, ?_, hbounds⟩
  · rw [decodeDocument_toUTF8, hd] at hd'
    cases hd'
    exact of_decide_eq_true hnames
  · rw [load_toUTF8, hd]
    exact hm

set_option maxRecDepth 100000 in
theorem parse_textAheadDocument :
    (Xmi.Document.parse textAheadDocument).toOption.map glance = some (true, some []) := by
  unfold Xmi.Document.parse
  rw [content_textAheadDocument]
  decide +kernel

set_option maxRecDepth 100000 in
theorem parse_textBehindDocument :
    (Xmi.Document.parse textBehindDocument).toOption.map glance = none := by
  unfold Xmi.Document.parse
  rw [content_textBehindDocument]
  decide +kernel

set_option maxRecDepth 100000 in
theorem parse_noteAheadDocument :
    (Xmi.Document.parse noteAheadDocument).toOption.map glance = some (true, some ["7"]) := by
  unfold Xmi.Document.parse
  rw [content_noteAheadDocument]
  decide +kernel

set_option maxRecDepth 100000 in
theorem parse_noteBehindDocument :
    (Xmi.Document.parse noteBehindDocument).toOption.map glance = some (true, some ["1"]) := by
  unfold Xmi.Document.parse
  rw [content_noteBehindDocument]
  decide +kernel

/-- In other documents the order of siblings can decide whether there is a model, and which. -/
theorem arrangement_matters :
    (SameButForOrder textAheadDocument textBehindDocument ∧
      (∃ m, (load textAheadDocument.toUTF8).result = .ok m) ∧
      ¬ ∃ m, (load textBehindDocument.toUTF8).result = .ok m) ∧
    (SameButForOrder noteAheadDocument noteBehindDocument ∧
      ∃ m m', (load noteAheadDocument.toUTF8).result = .ok m ∧
        (load noteBehindDocument.toUTF8).result = .ok m' ∧ m ≠ m') := by
  obtain ⟨htextNames, m, hm, -⟩ := load_of_glance parse_textAheadDocument
  obtain ⟨hnoteNames, m', hm', hahead⟩ := load_of_glance parse_noteAheadDocument
  obtain ⟨-, m'', hm'', hbehind⟩ := load_of_glance parse_noteBehindDocument
  refine ⟨⟨⟨?_, htextNames⟩, ⟨m, hm⟩, ?_⟩, ⟨?_, hnoteNames⟩, m', m'', hm', hm'', ?_⟩
  · rw [content_textAheadDocument, content_textBehindDocument]
    refine reordered_flightContent ?_
    -- the text is no part of the tree, so it is as good as gone
    refine .trans (.element (.refl _) .finished (.text _ _)) (.trans (.swap _ _ _ ?_) ?_)
    · decide +kernel
    · exact .element (.refl _) .finished (.symm (.text _ _))
  · rintro ⟨m, hm⟩
    have hnone := parse_textBehindDocument
    rw [load_toUTF8] at hm
    obtain ⟨d, hd, -⟩ := bind_eq_ok_iff.1 hm
    rw [mapError_eq_ok_iff.1 hd] at hnone
    cases hnone
  · rw [content_noteAheadDocument, content_noteBehindDocument]
    refine reordered_flightContent (.element (.refl _) (.element (.refl _) ?_ .finished) .finished)
    exact .element (.refl _) .finished (.swap _ _ _ (by decide +kernel))
  · rintro rfl
    exact absurd (hahead.symm.trans hbehind) (by decide)

end UmlTyping.Model
