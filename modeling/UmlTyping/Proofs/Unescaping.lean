import Mathlib.Data.List.Basic
import Mathlib.Data.List.TakeWhile
import Mathlib.Tactic.ByContra
import UmlTyping.Xml.Reference

/-!
# Strings between quotes

What stands between double quotes ends at the first quote that no backslash takes along
(`cutQuote`), and its escape sequences are replaced (`unescapeFrom`). A text comes out of that as it
went in (`isPlain_iff`) exactly if no quote is in it, no end of a line, and no backslash that
something follows which makes it an escape sequence. For reading never makes a text longer, and
makes it shorter with every escape sequence (`length_unescapeFrom`).
-/

namespace UmlTyping.Source

open Xml.Reference (digit? number?)

/-! ## Reading -/

/-- The characters that no string goes beyond: the two that end a line, and the one that no source
text holds. -/
def lineBreaks : List Char := ['\n', '\r', '\x00']

/-- The characters that make a backslash in front of them an escape sequence, or an error. -/
def escapeStarts : List Char :=
  ['\n', '\r', '\x00', '\\', '\'', '"', 'a', 'b', 'f', 'n', 'r', 't', 'v', 'x', 'u', 'U', 'N',
   '0', '1', '2', '3', '4', '5', '6', '7']

/-- The characters that have a letter or a mark for their escape sequence. -/
def shortEscapes : List (Char × Char) :=
  [('\\', '\\'), ('\'', '\''), ('"', '"'), ('a', '\x07'), ('b', '\x08'), ('f', '\x0c'),
   ('n', '\n'), ('r', '\r'), ('t', '\t'), ('v', '\x0b')]

/-- The digits that a text starts with. -/
def leadingDigits (base : Nat) (cs : List Char) : List Char :=
  cs.takeWhile fun c => (digit? base c).isSome

/-- The character with a number that is given by digits. -/
def numbered? (base : Nat) (digits : List Char) : Option Char :=
  (number? base digits).bind fun n => if n.isValidChar then some (Char.ofNat n) else none

/-- An escape sequence with a fixed number of hexadecimal digits, read behind its letter. -/
def hexEscape (width : Nat) (cs : List Char) : Option (Nat × List Char) :=
  let digits := (leadingDigits 16 cs).take width
  if digits.length = width then (numbered? 16 digits).map fun c => (width + 1, [c]) else none

/-- An escape sequence with the name of a character, read behind its letter. What characters are
called is left open. -/
def nameEscape (named : List Char → Option Char) : List Char → Option (Nat × List Char)
  | '\x7b' :: cs =>
    let name := cs.takeWhile (· ≠ '\x7d')
    if name.length < cs.length then (named name).map fun c => (name.length + 3, [c]) else none
  | _ => none

/-- An escape sequence, read behind its backslash: how many characters belong to it, and what it
stands for. A line that ends in a backslash goes on in the next one. -/
def escapeSequence (named : List Char → Option Char) : List Char → Option (Nat × List Char)
  | [] => none
  | '\r' :: '\n' :: _ => some (2, [])
  | c :: cs =>
    if c = '\n' ∨ c = '\r' then some (1, [])
    else if c = 'x' then hexEscape 2 cs
    else if c = 'u' then hexEscape 4 cs
    else if c = 'U' then hexEscape 8 cs
    else if c = 'N' then nameEscape named cs
    else
      match shortEscapes.lookup c with
      | some d => some (1, [d])
      | none =>
        let digits := (leadingDigits 8 (c :: cs)).take 3
        (numbered? 8 digits).map fun d => (digits.length, [d])

/-- What a backslash stands for, together with so many characters behind it. Where they make no
escape sequence, the backslash stands for itself. -/
def afterBackslash (named : List Char → Option Char) : List Char → Option (Nat × List Char)
  | [] => none
  | c :: cs =>
    if c ∈ escapeStarts then escapeSequence named (c :: cs) else some (0, ['\\'])

/-- Replaces the escape sequences of a text, past so many characters. -/
def unescapeFrom (named : List Char → Option Char) : Nat → List Char → Option (List Char)
  | _, [] => some []
  | n + 1, _ :: cs => unescapeFrom named n cs
  | 0, c :: cs =>
    if c = '\\' then
      match afterBackslash named cs with
      | some (n, text) => (unescapeFrom named n cs).map (text ++ ·)
      | none => none
    else (unescapeFrom named 0 cs).map (c :: ·)

/-- Puts characters in front of the first of two texts. -/
def consFirst (cs : List Char) (p : List Char × List Char) : List Char × List Char :=
  (cs ++ p.1, p.2)

/-- Splits text at the quote that ends what stands between quotes. A backslash takes along what
follows it, and no line ends before the quote. -/
def cutQuote : List Char → Option (List Char × List Char)
  | [] => none
  | '"' :: cs => some ([], cs)
  | '\\' :: '\r' :: '\n' :: cs => (cutQuote cs).map (consFirst ['\\', '\r', '\n'])
  | '\\' :: c :: cs => (cutQuote cs).map (consFirst ['\\', c])
  | c :: cs => if c ∈ lineBreaks then none else (cutQuote cs).map (consFirst [c])

theorem eq_append_of_cutQuote {cs raw rest : List Char} (h : cutQuote cs = some (raw, rest)) :
    cs = raw ++ '"' :: rest := by
  fun_induction cutQuote cs generalizing raw with
  | case1 => cases h
  | case2 cs =>
    cases h
    rfl
  | case3 cs ih =>
    obtain ⟨⟨raw, rest⟩, hcut, heq⟩ := Option.map_eq_some_iff.1 h
    cases heq
    rw [ih hcut]
    rfl
  | case4 c cs _ ih =>
    obtain ⟨⟨raw, rest⟩, hcut, heq⟩ := Option.map_eq_some_iff.1 h
    cases heq
    rw [ih hcut]
    rfl
  | case5 => cases h
  | case6 c cs _ _ _ _ ih =>
    obtain ⟨⟨raw, rest⟩, hcut, heq⟩ := Option.map_eq_some_iff.1 h
    cases heq
    rw [ih hcut]
    rfl

/-! ## What an escape sequence takes -/

section

variable {named : List Char → Option Char} {cs text : List Char} {n : Nat}

lemma length_leadingDigits_append_blank (base : Nat) (cs : List Char) :
    (leadingDigits base (cs ++ [' '])).length ≤ cs.length := by
  induction cs with
  | nil =>
    have hblank : digit? base ' ' = none := by
      simp [digit?]
    simp [leadingDigits, hblank]
  | cons c cs ih =>
    unfold leadingDigits at ih ⊢
    rw [List.cons_append, List.takeWhile_cons]
    split
    · simpa using ih
    · simp

lemma hexEscape_eq_some {width : Nat} (h : hexEscape width cs = some (n, text)) :
    n = width + 1 ∧ width ≤ (leadingDigits 16 cs).length ∧ text.length = 1 := by
  unfold hexEscape at h
  dsimp only at h
  split at h
  next hwidth =>
    obtain ⟨c, -, heq⟩ := Option.map_eq_some_iff.1 h
    cases heq
    rw [List.length_take] at hwidth
    exact ⟨rfl, by omega, rfl⟩
  · cases h

lemma nameEscape_eq_some (h : nameEscape named cs = some (n, text)) : ∃ name rest : List Char,
    cs = '\x7b' :: (name ++ '\x7d' :: rest) ∧ n = name.length + 3 ∧ text.length = 1 := by
  unfold nameEscape at h
  split at h
  next inner =>
    dsimp only at h
    split at h
    next hlt =>
      obtain ⟨c, -, heq⟩ := Option.map_eq_some_iff.1 h
      cases heq
      -- the name is not all that is left, so what stops it is there
      have hsplit := List.takeWhile_append_dropWhile (p := (· ≠ '\x7d')) (l := inner)
      cases hrest : inner.dropWhile (· ≠ '\x7d') with
      | nil =>
        rw [hrest, List.append_nil] at hsplit
        rw [hsplit] at hlt
        omega
      | cons d rest =>
        have hd : d = '\x7d' := by
          have hstop := List.head?_dropWhile_not (p := (· ≠ '\x7d')) (l := inner)
          rw [hrest] at hstop
          simpa using hstop
        subst hd
        exact ⟨_, rest, by rw [← hrest, hsplit], rfl, rfl⟩
    · cases h
  · cases h

/-- An escape sequence takes at least one character of those that follow the backslash, and stands
for one at most. -/
lemma escapeSequence_length (h : escapeSequence named cs = some (n, text)) :
    1 ≤ n ∧ text.length ≤ 1 := by
  unfold escapeSequence at h
  split at h
  · cases h
  · cases h
    simp
  next c cs _ =>
    split at h
    · cases h
      simp
    split at h
    · obtain ⟨hn, -, htext⟩ := hexEscape_eq_some h
      omega
    split at h
    · obtain ⟨hn, -, htext⟩ := hexEscape_eq_some h
      omega
    split at h
    · obtain ⟨hn, -, htext⟩ := hexEscape_eq_some h
      omega
    split at h
    · obtain ⟨name, rest, -, hn, htext⟩ := nameEscape_eq_some h
      omega
    split at h
    · cases h
      simp
    · obtain ⟨d, hd, heq⟩ := Option.map_eq_some_iff.1 h
      cases heq
      refine ⟨?_, le_rfl⟩
      cases hdigits : (leadingDigits 8 (c :: cs)).take 3 with
      | nil =>
        rw [hdigits] at hd
        cases hd
      | cons _ _ => simp

/-- A blank at the end is never part of an escape sequence. -/
lemma escapeSequence_append_blank (h : escapeSequence named (cs ++ [' ']) = some (n, text)) :
    n ≤ cs.length := by
  match cs with
  | [] =>
    have hnone : escapeSequence named [' '] = none := rfl
    rw [List.nil_append, hnone] at h
    cases h
  | c :: cs =>
    have hhex : ∀ width, hexEscape width (cs ++ [' ']) = some (n, text) → n ≤ cs.length + 1 := by
      intro width hescape
      obtain ⟨hn, hwidth, -⟩ := hexEscape_eq_some hescape
      have := length_leadingDigits_append_blank 16 cs
      omega
    rw [List.cons_append] at h
    unfold escapeSequence at h
    split at h
    · next heq => cases heq
    · next heq =>
      cases h
      cases cs with
      | nil => simp at heq
      | cons d cs => simp
    · next heq =>
      cases heq
      split at h
      · cases h
        simp
      split at h
      · exact hhex 2 h
      split at h
      · exact hhex 4 h
      split at h
      · exact hhex 8 h
      split at h
      · obtain ⟨name, rest, hname, hn, -⟩ := nameEscape_eq_some h
        -- the name is closed by a brace, so the blank stands behind that
        cases rest with
        | nil =>
          have hlast := congrArg List.getLast? hname
          rw [← List.cons_append, List.getLast?_concat, List.getLast?_concat] at hlast
          exact absurd hlast (by decide)
        | cons d rest =>
          have hlength := congrArg List.length hname
          simp only [List.length_append, List.length_cons, List.length_nil] at hlength ⊢
          omega
      split at h
      · cases h
        simp
      · obtain ⟨d, hd, heq⟩ := Option.map_eq_some_iff.1 h
        cases heq
        have := length_leadingDigits_append_blank 8 (c :: cs)
        rw [List.length_take]
        rw [List.cons_append] at this
        omega

/-- A backslash stands for itself if it makes no escape sequence. Else it takes more characters than
it stands for. -/
lemma afterBackslash_eq_some (h : afterBackslash named cs = some (n, text)) :
    ∃ c rest, cs = c :: rest ∧ (c ∉ escapeStarts ∧ n = 0 ∧ text = ['\\'] ∨
      c ∈ escapeStarts ∧ 1 ≤ n ∧ text.length ≤ 1) := by
  match cs with
  | [] => cases h
  | c :: rest =>
    refine ⟨c, rest, rfl, ?_⟩
    rw [afterBackslash] at h
    split at h
    next hc =>
      obtain ⟨hn, htext⟩ := escapeSequence_length h
      exact Or.inr ⟨hc, hn, htext⟩
    next hc =>
      cases h
      exact Or.inl ⟨hc, rfl, rfl⟩

lemma afterBackslash_append_blank (h : afterBackslash named (cs ++ [' ']) = some (n, text)) :
    n ≤ cs.length := by
  unfold afterBackslash at h
  split at h
  · cases h
  next heq =>
    split at h
    · rw [← heq] at h
      exact escapeSequence_append_blank h
    · cases h
      exact Nat.zero_le _

/-! ## Unescaped text -/

lemma unescapeFrom_backslash (cs : List Char) : unescapeFrom named 0 ('\\' :: cs) =
    (afterBackslash named cs).bind fun p => (unescapeFrom named p.1 cs).map (p.2 ++ ·) := by
  rw [unescapeFrom, if_pos rfl]
  cases afterBackslash named cs with
  | none => rfl
  | some p => rfl

lemma unescapeFrom_cons {c : Char} (hc : c ≠ '\\') (cs : List Char) :
    unescapeFrom named 0 (c :: cs) = (unescapeFrom named 0 cs).map (c :: ·) := by
  rw [unescapeFrom, if_neg hc]

/-- Text does not get longer when its escape sequences are replaced. -/
theorem length_unescapeFrom (h : unescapeFrom named n cs = some text) :
    text.length ≤ cs.length - n := by
  induction cs generalizing n text with
  | nil =>
    unfold unescapeFrom at h
    cases h
    simp
  | cons c cs ih =>
    cases n with
    | succ n =>
      have := ih h
      simp only [List.length_cons]
      omega
    | zero =>
      by_cases hc : c = '\\'
      · subst hc
        rw [unescapeFrom_backslash] at h
        obtain ⟨⟨n, first⟩, hfirst, h⟩ := Option.bind_eq_some_iff.1 h
        obtain ⟨rest, hrest, rfl⟩ := Option.map_eq_some_iff.1 h
        have := ih hrest
        obtain ⟨d, cs, rfl, ⟨-, rfl, rfl⟩ | ⟨-, hn, htext⟩⟩ := afterBackslash_eq_some hfirst
        · simp only [List.length_cons, List.length_append, List.length_nil] at this ⊢
          omega
        · simp only [List.length_cons, List.length_append] at this ⊢
          omega
      · rw [unescapeFrom_cons hc] at h
        obtain ⟨rest, hrest, rfl⟩ := Option.map_eq_some_iff.1 h
        have := ih hrest
        simp only [List.length_cons]
        omega

/-- A blank at the end stays there. -/
theorem getLast?_unescapeFrom (h : unescapeFrom named n (cs ++ [' ']) = some text)
    (hn : n ≤ cs.length) : text.getLast? = some ' ' := by
  induction cs generalizing n text with
  | nil =>
    obtain rfl : n = 0 := Nat.le_zero.1 hn
    rw [List.nil_append, unescapeFrom_cons (by decide)] at h
    cases h
    rfl
  | cons c cs ih =>
    cases n with
    | succ n => exact ih h (Nat.le_of_succ_le_succ hn)
    | zero =>
      have happend : ∀ first rest : List Char, rest.getLast? = some ' ' →
          (first ++ rest).getLast? = some ' ' := by
        intro first rest hrest
        rw [List.getLast?_append, hrest]
        rfl
      by_cases hc : c = '\\'
      · subst hc
        rw [List.cons_append, unescapeFrom_backslash] at h
        obtain ⟨⟨n, first⟩, hfirst, h⟩ := Option.bind_eq_some_iff.1 h
        obtain ⟨rest, hrest, rfl⟩ := Option.map_eq_some_iff.1 h
        exact happend _ _ (ih hrest (afterBackslash_append_blank hfirst))
      · rw [List.cons_append, unescapeFrom_cons hc] at h
        obtain ⟨rest, hrest, rfl⟩ := Option.map_eq_some_iff.1 h
        exact happend [c] rest (ih hrest (Nat.zero_le _))

/-! ## Text that stands for itself -/

/-- Nothing in a text is special between quotes. -/
def isPlain : List Char → Bool
  | [] => true
  | c :: cs =>
    c ≠ '"' && c ∉ lineBreaks && (c ≠ '\\' || cs.head?.any (· ∉ escapeStarts)) && isPlain cs

/-- What stands for itself between quotes stays in its line. -/
lemma newline_not_mem_of_isPlain {cs : List Char} (h : isPlain cs = true) : '\n' ∉ cs := by
  induction cs with
  | nil => exact List.not_mem_nil
  | cons c cs ih =>
    rw [isPlain, Bool.and_eq_true, Bool.and_eq_true, Bool.and_eq_true, decide_eq_true_iff,
      decide_eq_true_iff] at h
    obtain ⟨⟨⟨-, hline⟩, -⟩, hrest⟩ := h
    rw [List.mem_cons, not_or]
    refine ⟨?_, ih hrest⟩
    rintro rfl
    exact hline (by decide)

lemma map_consFirst_eq_some_iff {c : Char} {p : Option (List Char × List Char)}
    {rest : List Char} :
    p.map (consFirst [c]) = some (c :: text, rest) ↔ p = some (text, rest) := by
  cases p with
  | none => simp
  | some p => simp [consFirst, Prod.ext_iff]

lemma cutQuote_cons {c : Char} (hquote : c ≠ '"') (hbackslash : c ≠ '\\') (cs : List Char) :
    cutQuote (c :: cs) =
      if c ∈ lineBreaks then none else (cutQuote cs).map (consFirst [c]) := by
  rw [cutQuote]
  · exact hquote
  · intro _ h
    exact absurd h hbackslash
  · intro _ _ h
    exact absurd h hbackslash

/-- A backslash that makes no escape sequence is like any other character. -/
lemma cutQuote_backslash {c : Char} (hc : c ∉ escapeStarts) (cs : List Char) :
    cutQuote ('\\' :: c :: cs) = (cutQuote (c :: cs)).map (consFirst ['\\']) := by
  have hne : ∀ d ∈ escapeStarts, c ≠ d := by
    rintro d hd rfl
    exact hc hd
  have hline : c ∉ lineBreaks := fun h => hc ((by decide : lineBreaks ⊆ escapeStarts) h)
  rw [cutQuote_cons (hne '"' (by decide)) (hne '\\' (by decide)), if_neg hline, cutQuote]
  · rw [Option.map_map]
    rfl
  · intro _ h
    exact absurd h (hne '\r' (by decide))

/-- A text stands for itself exactly if the quote behind it is taken for its end, and nothing in it
is replaced. -/
theorem isPlain_iff {cs rest : List Char} : isPlain cs = true ↔
    cutQuote (cs ++ '"' :: rest) = some (cs, rest) ∧ unescapeFrom named 0 cs = some cs := by
  induction cs with
  | nil => simp [isPlain, cutQuote, unescapeFrom]
  | cons c cs ih =>
    by_cases hquote : c = '"'
    · subst hquote
      simp [isPlain, cutQuote]
    by_cases hbackslash : c = '\\'
    · subst hbackslash
      cases cs with
      | nil => simp [isPlain, unescapeFrom, afterBackslash]
      | cons d cs =>
        by_cases hd : d ∈ escapeStarts
        · -- an escape sequence makes the text shorter, so it does not come out as it was
          have hnot : unescapeFrom named 0 ('\\' :: d :: cs) ≠ some ('\\' :: d :: cs) := by
            intro h
            rw [unescapeFrom_backslash] at h
            obtain ⟨⟨n, first⟩, hfirst, h⟩ := Option.bind_eq_some_iff.1 h
            obtain ⟨others, hothers, heq⟩ := Option.map_eq_some_iff.1 h
            have hlength := congrArg List.length heq
            have := length_unescapeFrom hothers
            obtain ⟨d', cs', hcons, ⟨hd', -⟩ | ⟨-, hn, htext⟩⟩ := afterBackslash_eq_some hfirst
            · cases hcons
              exact hd' hd
            · simp only [List.length_append, List.length_cons] at hlength this
              omega
          simp [isPlain, hd, hnot]
        · have hafter : afterBackslash named (d :: cs) = some (0, ['\\']) := by
            rw [afterBackslash, if_neg hd]
          have hplain : isPlain ('\\' :: d :: cs) = isPlain (d :: cs) := by
            rw [isPlain]
            simp [hd, lineBreaks]
          have hcut : cutQuote ('\\' :: d :: cs ++ '"' :: rest) =
              (cutQuote (d :: cs ++ '"' :: rest)).map (consFirst ['\\']) :=
            cutQuote_backslash hd _
          rw [hplain, ih, hcut, map_consFirst_eq_some_iff, unescapeFrom_backslash, hafter]
          simp
    · rw [List.cons_append, cutQuote_cons hquote hbackslash, unescapeFrom_cons hbackslash]
      by_cases hline : c ∈ lineBreaks
      · simp [isPlain, hline]
      · rw [if_neg hline, map_consFirst_eq_some_iff]
        have hplain : isPlain (c :: cs) = isPlain cs := by
          rw [isPlain]
          simp [hquote, hbackslash, hline]
        rw [hplain, ih]
        simp

/-- A backslash may stand in a literal as long as it makes no escape sequence. -/
example : isPlain ['a', '\\', 'd'] = true ∧ isPlain ['a', '\\', 'n'] = false := by
  decide

end

end UmlTyping.Source
