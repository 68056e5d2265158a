import UmlTyping.Proofs.Naming
import UmlTyping.Proofs.Unescaping

/-!
# Literals between quotes

An enumeration puts its literals between double quotes as they are. Whoever reads the source text
takes the first quote that no backslash stands before for the end of a literal, and replaces the
escape sequences in it. So a literal may come out changed, or not at all, or as several.

`readLiterals` is that reading. It gives back the literals of an enumeration exactly if each of them
stands for itself (`readLiterals_enumeration`). A literal that swallows its closing quote would have
to end in the blank that separates it from the next one, but then the quote would not have been
swallowed.
-/

namespace UmlTyping.Source

/-! ## Reading -/

/-- The characters that may stand between the parts of a list. -/
def isBlank (c : Char) : Bool := c = ' ' || c = '\t' || c = '\n' || c = '\r' || c = '\x0c'

/-- Reads a string between quotes, with the blanks around it. -/
def readItem (named : List Char → Option Char) (cs : List Char) :
    Option (List Char × List Char) :=
  match cs.dropWhile isBlank with
  | '"' :: inner => do
    let (raw, rest) ← cutQuote inner
    let text ← unescapeFrom named 0 raw
    pure (text, rest.dropWhile isBlank)
  | _ => none

theorem readItem_eq_some_iff {named : List Char → Option Char} {cs text rest : List Char} :
    readItem named cs = some (text, rest) ↔
      ∃ inner raw behind, cs.dropWhile isBlank = '"' :: inner ∧
        cutQuote inner = some (raw, behind) ∧ unescapeFrom named 0 raw = some text ∧
        behind.dropWhile isBlank = rest := by
  unfold readItem
  constructor
  · intro h
    split at h
    next inner hopen =>
      obtain ⟨⟨raw, behind⟩, hcut, h⟩ := Option.bind_eq_some_iff.1 h
      obtain ⟨text, htext, h⟩ := Option.bind_eq_some_iff.1 h
      cases h
      exact ⟨inner, raw, behind, hopen, hcut, htext, rfl⟩
    · cases h
  · rintro ⟨inner, raw, behind, hopen, hcut, htext, rfl⟩
    simp [hopen, hcut, htext]

theorem length_readItem {named : List Char → Option Char} {cs text rest : List Char}
    (h : readItem named cs = some (text, rest)) : rest.length < cs.length := by
  obtain ⟨inner, raw, behind, hopen, hcut, -, rfl⟩ := readItem_eq_some_iff.1 h
  have hbefore := (List.dropWhile_suffix isBlank (l := cs)).length_le
  have hbehind := (List.dropWhile_suffix isBlank (l := behind)).length_le
  rw [hopen, eq_append_of_cutQuote hcut] at hbefore
  simp only [List.length_cons, List.length_append] at hbefore
  omega

/-- The strings of a list, read behind its opening bracket. Its closing bracket is the end. -/
def readItems (named : List Char → Option Char) (cs : List Char) : Option (List (List Char)) :=
  match _h : readItem named cs with
  | some (text, [']']) => some [text]
  | some (text, ',' :: more) => (readItems named more).map (text :: ·)
  | _ => none
termination_by cs.length
decreasing_by
  have := length_readItem _h
  rw [List.length_cons] at this
  omega

theorem readItems_cons_eq_some_iff {named : List Char → Option Char} {cs text : List Char}
    {items : List (List Char)} : readItems named cs = some (text :: items) ↔
      readItem named cs = some (text, [']']) ∧ items = [] ∨
        ∃ more, readItem named cs = some (text, ',' :: more) ∧
          readItems named more = some items := by
  rw [readItems]
  split
  next text' heq =>
    rw [heq]
    simp [eq_comm]
  next text' more heq =>
    rw [heq]
    simp [eq_comm, and_comm]
  next hclosed hcomma =>
    constructor
    · intro h
      cases h
    · rintro (⟨h, -⟩ | ⟨more, h, -⟩)
      · exact absurd h (hclosed text)
      · exact absurd h (hcomma text more)

/-- The literals that the definition of an enumeration lists, read off its source text. -/
def readLiterals (named : List Char → Option Char) (name code : String) : Option (List String) :=
  let start := (name ++ " = Literal[").toList
  if start.isPrefixOf code.toList then
    (readItems named (code.toList.drop start.length)).map (·.map String.ofList)
  else none

/-! ## Lists of literals -/

section

variable {named : List Char → Option Char}

/-- What stands in a list behind the first literal, the quote after it apart: the other literals and
the bracket that closes the list. -/
def behind : List (List Char) → List Char
  | [] => [']']
  | l :: ls => ',' :: ' ' :: '"' :: (l ++ '"' :: behind ls)

/-- A quote behind a blank ends what stands before it. -/
lemma length_cutQuote_le {cs more raw rest : List Char}
    (h : cutQuote (cs ++ ' ' :: '"' :: more) = some (raw, rest)) : raw.length ≤ cs.length + 1 := by
  generalize hall : cs ++ ' ' :: '"' :: more = all at h
  fun_induction cutQuote all generalizing cs raw with
  | case1 => cases h
  | case2 =>
    cases h
    simp
  | case3 all ih =>
    obtain ⟨p, hp, heq⟩ := Option.map_eq_some_iff.1 h
    cases heq
    rcases cs with _ | ⟨_, _ | ⟨_, _ | ⟨_, cs⟩⟩⟩
    · cases hall
    · cases hall
    · cases hall
    · cases hall
      have := ih rfl hp
      simp only [List.length_append, List.length_cons, List.length_nil]
      omega
  | case4 c all _ ih =>
    obtain ⟨p, hp, heq⟩ := Option.map_eq_some_iff.1 h
    cases heq
    rcases cs with _ | ⟨_, _ | ⟨_, cs⟩⟩
    · cases hall
    · -- the backslash takes the blank along, and the quote is free
      cases hall
      cases hp
      simp
    · cases hall
      have := ih rfl hp
      simp only [List.length_append, List.length_cons, List.length_nil]
      omega
  | case5 => cases h
  | case6 c all _ _ _ _ ih =>
    obtain ⟨p, hp, heq⟩ := Option.map_eq_some_iff.1 h
    cases heq
    cases cs with
    | nil =>
      cases hall
      cases hp
      simp
    | cons _ cs =>
      cases hall
      have := ih rfl hp
      simp only [List.length_append, List.length_cons, List.length_nil]
      omega

/-- A quote in what stands behind a literal comes after a comma and a blank. -/
lemma exists_of_behind {ls : List (List Char)} {before rest : List Char}
    (h : behind ls = before ++ '"' :: rest) :
    ∃ inner more, behind ls = ',' :: ' ' :: '"' :: inner ∧ before = ',' :: ' ' :: more := by
  cases ls with
  | nil =>
    have hquote : '"' ∈ behind [] := h ▸ List.mem_append_right _ List.mem_cons_self
    exact absurd hquote (by decide)
  | cons l ls =>
    match before with
    | [] => cases h
    | [_] => cases h
    | _ :: _ :: more =>
      rw [behind, List.cons_append, List.cons_append, List.cons.injEq, List.cons.injEq] at h
      obtain ⟨rfl, rfl, -⟩ := h
      exact ⟨_, more, rfl, rfl⟩

/-- What is read as a literal that comes first in a list, and comes out as it was, ends at the quote
behind it. -/
theorem eq_of_cutQuote {l raw rest : List Char} {ls : List (List Char)}
    (hcut : cutQuote (l ++ '"' :: behind ls) = some (raw, rest))
    (htext : unescapeFrom named 0 raw = some l) : raw = l ∧ rest = behind ls := by
  have hlength : l.length ≤ raw.length := length_unescapeFrom htext
  rcases List.append_eq_append_iff.1 (eq_append_of_cutQuote hcut) with
    ⟨more, rfl, hmore⟩ | ⟨more, rfl, hmore⟩
  · cases more with
    | nil =>
      rw [List.nil_append, List.cons.injEq] at hmore
      exact ⟨List.append_nil l, hmore.2.symm⟩
    | cons c more =>
      -- the quote would have been swallowed, with all up to the next one
      rw [List.cons_append, List.cons.injEq] at hmore
      obtain ⟨rfl, hmore⟩ := hmore
      obtain ⟨inner, more, hbehind, rfl⟩ := exists_of_behind hmore
      rw [hbehind] at hcut
      -- the blank in front of the next quote is the last character of it
      have hfirst : l ++ '"' :: ',' :: ' ' :: '"' :: inner =
          (l ++ ['"', ',']) ++ ' ' :: '"' :: inner := by
        simp
      have hraw := length_cutQuote_le (hfirst ▸ hcut)
      simp only [List.length_append, List.length_cons, List.length_nil] at hraw
      obtain rfl : more = [] := List.eq_nil_of_length_eq_zero (by omega)
      -- so the literal ends in a blank, but then its own closing quote is one
      have hblank : l.getLast? = some ' ' := by
        have hlast : l ++ '"' :: ',' :: ' ' :: [] = (l ++ ['"', ',']) ++ [' '] := by
          simp
        exact getLast?_unescapeFrom (hlast ▸ htext) (Nat.zero_le _)
      obtain ⟨front, rfl⟩ := List.getLast?_eq_some_iff.1 hblank
      rw [List.append_assoc] at hcut
      have hclosed := length_cutQuote_le hcut
      simp only [List.length_append, List.length_cons, List.length_nil] at hclosed
      omega
  · cases more with
    | nil =>
      rw [List.nil_append, List.cons.injEq] at hmore
      exact ⟨(List.append_nil raw).symm, hmore.2⟩
    | cons c more =>
      rw [List.length_append, List.length_cons] at hlength
      omega

lemma dropWhile_isBlank_behind (ls : List (List Char)) :
    (behind ls).dropWhile isBlank = behind ls := by
  cases ls with
  | nil => rfl
  | cons l ls => rfl

/-- The literal that comes first in a list comes out as it was exactly if it stands for itself. What
is left is then what stands behind it. -/
theorem readItem_eq_some_self_iff {cs l rest : List Char} {ls : List (List Char)}
    (hcs : cs.dropWhile isBlank = '"' :: (l ++ '"' :: behind ls)) :
    readItem named cs = some (l, rest) ↔ isPlain l = true ∧ rest = behind ls := by
  rw [readItem_eq_some_iff, hcs]
  constructor
  · rintro ⟨inner, raw, after, hopen, hcut, htext, rfl⟩
    cases hopen
    obtain ⟨rfl, rfl⟩ := eq_of_cutQuote hcut htext
    exact ⟨isPlain_iff.2 ⟨hcut, htext⟩, dropWhile_isBlank_behind ls⟩
  · rintro ⟨hplain, rfl⟩
    have hreads : cutQuote (l ++ '"' :: behind ls) = some (l, behind ls) ∧
        unescapeFrom named 0 l = some l := isPlain_iff.1 hplain
    obtain ⟨hcut, htext⟩ := hreads
    exact ⟨_, l, behind ls, rfl, hcut, htext, dropWhile_isBlank_behind ls⟩

/-- A list of literals comes out as it was exactly if each of them stands for itself. -/
theorem readItems_eq_some_self_iff {cs l : List Char} {ls : List (List Char)}
    (hcs : cs.dropWhile isBlank = '"' :: (l ++ '"' :: behind ls)) :
    readItems named cs = some (l :: ls) ↔ ∀ x ∈ l :: ls, isPlain x = true := by
  induction ls generalizing cs l with
  | nil =>
    rw [readItems_cons_eq_some_iff]
    simp only [readItem_eq_some_self_iff hcs]
    simp [behind]
  | cons l' ls ih =>
    have hnext : (' ' :: '"' :: (l' ++ '"' :: behind ls)).dropWhile isBlank =
        '"' :: (l' ++ '"' :: behind ls) := rfl
    rw [readItems_cons_eq_some_iff, List.forall_mem_cons, ← ih hnext]
    simp only [readItem_eq_some_self_iff hcs]
    simp [behind]

/-! ## The source text of an enumeration -/

theorem toList_enumeration (name l : String) (ls : List String) :
    (enumeration name (l :: ls)).toList = (name ++ " = Literal[").toList ++
      '"' :: (l.toList ++ '"' :: behind (ls.map String.toList)) := by
  have hlist : ∀ l : String,
      (", ".intercalate ((l :: ls).map fun l => "\"" ++ l ++ "\"") ++ "]").toList =
        '"' :: (l.toList ++ '"' :: behind (ls.map String.toList)) := by
    induction ls with
    | nil =>
      intro l
      simp [behind]
    | cons l' ls ih =>
      intro l
      simpa [behind] using ih l'
  have hsplit : enumeration name (l :: ls) = (name ++ " = Literal[") ++
      (", ".intercalate ((l :: ls).map fun l => "\"" ++ l ++ "\"") ++ "]") := by
    unfold enumeration
    simp only [String.append_assoc]
  rw [hsplit, String.toList_append, hlist]

/-- The literals that are read off the source text of an enumeration are its own exactly if each of
them stands for itself. -/
theorem readLiterals_enumeration {literals : List String} (name : String) (h : literals ≠ []) :
    readLiterals named name (enumeration name literals) = some literals ↔
      ∀ l ∈ literals, isPlain l.toList = true := by
  match literals with
  | [] => exact absurd rfl h
  | l :: ls =>
    have hopen : ('"' :: (l.toList ++ '"' :: behind (ls.map String.toList))).dropWhile isBlank =
        '"' :: (l.toList ++ '"' :: behind (ls.map String.toList)) := rfl
    have hitems : readItems named ('"' :: (l.toList ++ '"' :: behind (ls.map String.toList))) =
        some ((l :: ls).map String.toList) ↔
          ∀ x ∈ (l :: ls).map String.toList, isPlain x = true := readItems_eq_some_self_iff hopen
    rw [List.forall_mem_map] at hitems
    rw [← hitems]
    unfold readLiterals
    rw [toList_enumeration, if_pos (by simp), List.drop_left]
    constructor
    · intro hread
      obtain ⟨items, hitems, heq⟩ := Option.map_eq_some_iff.1 hread
      have hmap := congrArg (List.map String.toList) heq
      rw [List.map_map] at hmap
      rw [hitems, ← hmap]
      simp [Function.comp_def]
    · intro hread
      rw [hread, Option.map_some, List.map_map]
      simp [Function.comp_def]

/-- The first separator of a text ends what has no separator in it. -/
lemma cut_separator {separator : Char} {l : List Char} (h : separator ∉ l) (rest : List Char) :
    (l ++ separator :: rest).takeWhile (· ≠ separator) = l ∧
      (l ++ separator :: rest).dropWhile (· ≠ separator) = separator :: rest := by
  have hall : ∀ c ∈ l, decide (c ≠ separator) = true := by
    intro c hc
    apply decide_eq_true
    rintro rfl
    exact h hc
  rw [List.takeWhile_append_of_pos hall, List.dropWhile_append_of_pos hall]
  simp

lemma append_separator_inj {separator : Char} {l l' rest rest' : List Char} (h : separator ∉ l)
    (h' : separator ∉ l') (heq : l ++ separator :: rest = l' ++ separator :: rest') :
    l = l' ∧ rest = rest' := by
  obtain ⟨htake, hdrop⟩ := cut_separator h rest
  obtain ⟨htake', hdrop'⟩ := cut_separator h' rest'
  rw [heq] at htake hdrop
  exact ⟨htake.symm.trans htake', (List.cons.inj (hdrop.symm.trans hdrop')).2⟩

/-- Where no quote is in any literal, the text of a list shows the literals. -/
lemma behind_inj {ls ls' : List (List Char)} (h : ∀ l ∈ ls, '"' ∉ l) (h' : ∀ l ∈ ls', '"' ∉ l)
    (heq : behind ls = behind ls') : ls = ls' := by
  induction ls generalizing ls' with
  | nil =>
    cases ls' with
    | nil => rfl
    | cons l' ls' => cases heq
  | cons l ls ih =>
    cases ls' with
    | nil => cases heq
    | cons l' ls' =>
      rw [List.forall_mem_cons] at h h'
      simp only [behind, List.cons.injEq, true_and] at heq
      obtain ⟨rfl, hrest⟩ := append_separator_inj h.1 h'.1 heq
      rw [ih h.2 h'.2 hrest]

/-- Different literals make different source texts, unless a quote is in one of them. -/
theorem enumeration_inj {name : String} {literals literals' : List String}
    (h : ∀ l ∈ literals, '"' ∉ l.toList) (h' : ∀ l ∈ literals', '"' ∉ l.toList)
    (hne : literals ≠ []) (hne' : literals' ≠ [])
    (heq : enumeration name literals = enumeration name literals') : literals = literals' := by
  match literals, literals' with
  | [], _ => exact absurd rfl hne
  | _, [] => exact absurd rfl hne'
  | l :: ls, l' :: ls' =>
    have htext := congrArg String.toList heq
    rw [toList_enumeration, toList_enumeration, List.append_cancel_left_eq] at htext
    have hbehind : behind ((l :: ls).map String.toList) = behind ((l' :: ls').map String.toList) :=
      congrArg (fun text => ',' :: ' ' :: text) htext
    have hmap := behind_inj (List.forall_mem_map.2 h) (List.forall_mem_map.2 h') hbehind
    exact List.map_injective_iff.2 (fun _ _ => String.toList_inj.1) hmap

end

end UmlTyping.Source

namespace UmlTyping

namespace Entry

variable {m : Model} {e : Entry} {d : Definition}

/-- An enumeration that compiles has literals, and they are its source text. -/
theorem literals_of_compile (h : (e.compile m).result = .ok d) (hkind : d.kind = .enumeration) :
    e.literals ≠ [] ∧ d.code = Source.enumeration e.name e.literals := by
  have hkind' : Kind.ofTag? e.tag = some .enumeration := hkind ▸ (compile_eq_ok h).kind_eq
  rcases result_compile m e with ⟨hnone, -⟩ | ⟨-, -, -, heq⟩ | ⟨kind, owner, hsome, -, heq⟩
  · cases hnone.symm.trans hkind'
  · cases heq.symm.trans h
  cases hsome.symm.trans hkind'
  rw [heq] at h
  unfold outcomeAs compileEnumeration at h
  dsimp only at h
  split at h
  · cases h
  next hne =>
    cases h
    exact ⟨hne, rfl⟩

/-- An enumeration that compiles lists its literals in its source text. Read as strings between
quotes they are the same again exactly if each of them stands for itself, however characters are
named. Enumerations of one name and with other literals have other source texts, as long as no quote
is in any of them. -/
theorem compile_literals_iff (h : (e.compile m).result = .ok d) (hkind : d.kind = .enumeration) :
    e.literals ≠ [] ∧ d.code = Source.enumeration e.name e.literals ∧
      (∀ named, Source.readLiterals named e.name d.code = some e.literals ↔
        ∀ l ∈ e.literals, Source.isPlain l.toList = true) ∧
      ∀ (m' : Model) (e' : Entry) (d' : Definition), (e'.compile m').result = .ok d' →
        d'.kind = .enumeration → e'.name = e.name → (∀ l ∈ e.literals, '"' ∉ l.toList) →
        (∀ l ∈ e'.literals, '"' ∉ l.toList) → d'.code = d.code → e'.literals = e.literals := by
  obtain ⟨hne, hcode⟩ := literals_of_compile h hkind
  refine ⟨hne, hcode, ?_, ?_⟩
  · intro named
    rw [hcode]
    exact Source.readLiterals_enumeration e.name hne
  · intro m' e' d' h' hkind' hname hquotes hquotes' hsame
    obtain ⟨hne', hcode'⟩ := literals_of_compile h' hkind'
    rw [hcode, hcode', hname] at hsame
    exact Source.enumeration_inj hquotes' hquotes hne' hne hsame

end Entry

namespace Model

/-- Two enumerations of one name. What the first has as two literals the second has as one. -/
def answerDocument : String :=
  "<XMI><Model>
    <packagedElement type='uml:Package' name='common'>
      <packagedElement type='uml:Enumeration' id='ID_common.Answer' name='Answer'>
        <ownedLiteral name='yes'/><ownedLiteral name='no'/>
      </packagedElement>
    </packagedElement>
    <packagedElement type='uml:Package' name='old'>
      <packagedElement type='uml:Enumeration' id='ID_old.Answer' name='Answer'>
        <ownedLiteral name='yes\", \"no'/>
      </packagedElement>
    </packagedElement>
  </Model></XMI>"

/-- The entry that lists its literals one by one. -/
def answer : Entry :=
  ⟨"ID_common.Answer", "uml:Enumeration", "Answer", ["yes", "no"], [], none⟩

/-- The entry that has quotes in its only literal. -/
def quotedAnswer : Entry :=
  ⟨"ID_old.Answer", "uml:Enumeration", "Answer", ["yes\", \"no"], [], none⟩

/-- The model that the document holds. -/
def answers : Model where
  packages := Table.ofList
    [("common", ⟨"common", Table.ofList [("ID_common.Answer", answer)]⟩),
     ("old", ⟨"old", Table.ofList [("ID_old.Answer", quotedAnswer)]⟩)]

set_option maxRecDepth 100000 in
theorem load_answerDocument : (load answerDocument.toUTF8).result = .ok answers := by
  unfold answerDocument
  apply load_ofList
  decide +kernel

/-- The definition of either entry. -/
def answerDefinition (id package : String) : Definition where
  id := id
  package := package
  name := "Answer"
  kind := .enumeration
  code := "Answer = Literal[\"yes\", \"no\"]"

theorem compile_answer :
    (answer.compile answers).result = .ok (answerDefinition "ID_common.Answer" "common") :=
  eq_ok_of_toOption (by decide +kernel)

theorem compile_quotedAnswer :
    (quotedAnswer.compile answers).result = .ok (answerDefinition "ID_old.Answer" "old") :=
  eq_ok_of_toOption (by decide +kernel)

end Model

theorem Entry.answer_literals_iff :
    (Model.answer.compile Model.answers).result =
      .ok (Model.answerDefinition "ID_common.Answer" "common") ∧
    (Model.answerDefinition "ID_common.Answer" "common").kind = .enumeration ∧
    ∀ named, Source.readLiterals named "Answer" "Answer = Literal[\"yes\", \"no\"]" =
      some ["yes", "no"] := by
  refine ⟨Model.compile_answer, rfl, fun named => ?_⟩
  obtain ⟨-, -, hread, -⟩ := Entry.compile_literals_iff Model.compile_answer rfl
  exact (hread named).2 (by decide)

/-- Two enumerations with different literals have the same source text, in which the literals of the
second cannot be read. -/
theorem Entry.quotedAnswer_not_read : ∃ m e e' d d',
    (Model.load Model.answerDocument.toUTF8).result = .ok m ∧
    m.find? "ID_common.Answer" = some e ∧ m.find? "ID_old.Answer" = some e' ∧
    e.literals = ["yes", "no"] ∧ e'.literals = ["yes\", \"no"] ∧
    (e.compile m).result = .ok d ∧ (e'.compile m).result = .ok d' ∧
    d.kind = .enumeration ∧ d'.kind = .enumeration ∧ d.code = d'.code ∧
    ∀ named, Source.readLiterals named e'.name d'.code ≠ some e'.literals := by
  refine ⟨Model.answers, Model.answer, Model.quotedAnswer, _, _, Model.load_answerDocument,
    by decide +kernel, by decide +kernel, rfl, rfl, Model.compile_answer,
    Model.compile_quotedAnswer, rfl, rfl, rfl, fun named hread => ?_⟩
  have hplain : ∀ l ∈ Model.quotedAnswer.literals, Source.isPlain l.toList = true :=
    (Source.readLiterals_enumeration "Answer" (by decide)).1 hread
  exact absurd hplain (by decide)

end UmlTyping
