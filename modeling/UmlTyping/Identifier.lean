/-!
# Identifiers

An identifier such as `ID_acme.data.flight.Flight` names an entry and, by its dotted path, the
package that owns the entry. Read from the right, the path is a local name, a dot, and the qualified
package; the leading marker `ID_` belongs to neither.

`splitLast` finds the last dot; the readings of an identifier are all taken from it. What it returns
fits together again (`splitLast_eq_some_iff`), and it fails only where there is no dot
(`splitLast_eq_none_iff`).
-/

namespace UmlTyping

/-- The text by which an entry is named throughout a model. -/
abbrev Identifier := String

namespace Identifier

/-- The text that identifiers start with. -/
def marker : String := "ID_"

/-- Splits at the last dot, which belongs to neither part. -/
def splitLast : List Char → Option (List Char × List Char)
  | [] => none
  | c :: rest =>
    match splitLast rest with
    | some (before, after) => some (c :: before, after)
    | none => if c = '.' then some ([], rest) else none

theorem splitLast_eq_none_iff {cs : List Char} : splitLast cs = none ↔ '.' ∉ cs := by
  induction cs with
  | nil => simp [splitLast]
  | cons c rest ih =>
    rw [splitLast]
    cases h : splitLast rest with
    | some p =>
      have : '.' ∈ rest := by simpa [h] using ih
      simp [this]
    | none =>
      have : '.' ∉ rest := ih.1 h
      by_cases hc : c = '.'
      · simp [hc]
      · simp [hc, this, Ne.symm hc]

theorem splitLast_append {before after : List Char} (h : '.' ∉ after) :
    splitLast (before ++ '.' :: after) = some (before, after) := by
  induction before with
  | nil => simp [splitLast, splitLast_eq_none_iff.2 h]
  | cons c rest ih => simp [splitLast, ih]

theorem eq_append_of_splitLast {cs before after : List Char}
    (h : splitLast cs = some (before, after)) : cs = before ++ '.' :: after ∧ '.' ∉ after := by
  induction cs generalizing before with
  | nil => simp [splitLast] at h
  | cons c rest ih =>
    rw [splitLast] at h
    cases hr : splitLast rest with
    | some p =>
      obtain ⟨b, a⟩ := p
      simp only [hr, Option.some.injEq, Prod.mk.injEq] at h
      obtain ⟨rfl, rfl⟩ := h
      obtain ⟨hrest, ha⟩ := ih hr
      exact ⟨by simp [hrest], ha⟩
    | none =>
      -- the head is the last dot, since none follows it
      have hrest : '.' ∉ rest := splitLast_eq_none_iff.1 hr
      by_cases hc : c = '.'
      · simp only [hr, hc, if_true, Option.some.injEq, Prod.mk.injEq] at h
        obtain ⟨rfl, rfl⟩ := h
        exact ⟨by simp [hc], hrest⟩
      · simp [hr, hc] at h

theorem splitLast_eq_some_iff {cs before after : List Char} :
    splitLast cs = some (before, after) ↔ cs = before ++ '.' :: after ∧ '.' ∉ after :=
  ⟨eq_append_of_splitLast, fun ⟨h, ha⟩ => h ▸ splitLast_append ha⟩

/-- The dotted path: the identifier without one leading marker. -/
def path (id : Identifier) : List Char :=
  let cs := id.toList
  if marker.toList.isPrefixOf cs then cs.drop marker.length else cs

/-- The package path that the identifier encodes, if it encodes one: all of its path before the last
dot, provided that anything stands there. -/
def qualifiedPackage? (id : Identifier) : Option String :=
  match splitLast id.path with
  | some (c :: before, _) => some (String.ofList (c :: before))
  | _ => none

/-- What follows the last dot, or the whole text where there is none. -/
def lastSegment (cs : List Char) : List Char :=
  match splitLast cs with
  | some (_, after) => after
  | none => cs

theorem dot_not_mem_lastSegment (cs : List Char) : '.' ∉ lastSegment cs := by
  unfold lastSegment
  split
  next before after hsplit => exact (splitLast_eq_some_iff.1 hsplit).2
  next hnone => exact splitLast_eq_none_iff.1 hnone

theorem lastSegment_append {before after : List Char} (h : '.' ∉ after) :
    lastSegment (before ++ '.' :: after) = after := by
  rw [lastSegment, splitLast_append h]

/-- The last segment is all there is, or it follows a dot. -/
theorem lastSegment_eq_or_exists (cs : List Char) :
    lastSegment cs = cs ∨ ∃ before, cs = before ++ '.' :: lastSegment cs := by
  unfold lastSegment
  split
  next before after hsplit => exact Or.inr ⟨before, (splitLast_eq_some_iff.1 hsplit).1⟩
  next => exact Or.inl rfl

/-- The last segment of the package path that the identifier encodes, if it encodes one. -/
def package? (id : Identifier) : Option String :=
  id.qualifiedPackage?.map fun package => String.ofList (lastSegment package.toList)

/-- The last segment of the identifier, which names the entry within its package. -/
def localName (id : Identifier) : String :=
  String.ofList (lastSegment id.toList)

end Identifier

end UmlTyping
