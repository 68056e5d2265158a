import Mathlib.Data.Nat.Basic
import UmlTyping.Text.Utf8

/-!
# Encoded text is decoded

Text that is written as UTF-8 is read back as it was (`decode_toUTF8`). A character takes up to four
bytes: the first one fixes how many are owed and in which range the second may lie, and every later
one adds six bits. The ranges are no obstacle: they exclude what no character is encoded as.
-/

namespace UmlTyping.Utf8

lemma toNat_byte {n : Nat} (h : n < 256) : (UInt8.ofNat n).toNat = n := by
  rw [UInt8.toNat_ofNat']
  exact Nat.mod_eq_of_lt h

/-! ## Reading one byte -/

section

variable (done : String) (index : Nat) (rest : List UInt8)

lemma decodeFrom_whole {b : UInt8} {c : Char} (h : first b = .whole c) :
    decodeFrom done index none (b :: rest) = decodeFrom (done.push c) (index + 1) none rest := by
  rw [decodeFrom]
  simp only [h]

lemma decodeFrom_begun {b : UInt8} {p : Pending} (h : first b = .begun p) :
    decodeFrom done index none (b :: rest) = decodeFrom done index (some p) rest := by
  rw [decodeFrom]
  simp only [h]

lemma extended_eq (p : Pending) {b : UInt8} {n : Nat} (hb : b.toNat = n + 0x80) :
    p.extended b = p.bits * 64 + n := by
  unfold Pending.extended
  omega

lemma accepts_eq_true {p : Pending} {b : UInt8} {n : Nat} (hb : b.toNat = n + 0x80)
    (hlow : p.low ≤ n + 0x80) (hhigh : n + 0x80 ≤ p.high) : p.accepts b = true := by
  rw [Pending.accepts, hb, decide_eq_true hlow, decide_eq_true hhigh]
  rfl

/-- The last byte of a character completes it. -/
lemma decodeFrom_last {bits width low high n : Nat} (hn : n < 64) (hlow : low ≤ n + 0x80)
    (hhigh : n + 0x80 ≤ high) :
    decodeFrom done index (some ⟨bits, width, 0, low, high⟩) (UInt8.ofNat (n + 0x80) :: rest)
      = decodeFrom (done.push (Char.ofNat (bits * 64 + n))) (index + width + 1) none rest := by
  have hb : (UInt8.ofNat (n + 0x80)).toNat = n + 0x80 := toNat_byte (by omega)
  rw [decodeFrom, if_pos (accepts_eq_true hb hlow hhigh)]
  simp only [Pending.next, extended_eq _ hb]

/-- Any other continuation byte adds its bits to those that are read. -/
lemma decodeFrom_next {bits width owed low high n : Nat} (hn : n < 64) (hlow : low ≤ n + 0x80)
    (hhigh : n + 0x80 ≤ high) :
    decodeFrom done index (some ⟨bits, width, owed + 1, low, high⟩) (UInt8.ofNat (n + 0x80) :: rest)
      = decodeFrom done index (some { bits := bits * 64 + n, width := width + 1, owed }) rest := by
  have hb : (UInt8.ofNat (n + 0x80)).toNat = n + 0x80 := toNat_byte (by omega)
  rw [decodeFrom, if_pos (accepts_eq_true hb hlow hhigh)]
  simp only [Pending.next, extended_eq _ hb]

end

/-! ## The first byte -/

lemma first_one {v : Nat} (h : v ≤ 0x7F) : first (UInt8.ofNat v) = .whole (Char.ofNat v) := by
  rw [first, toNat_byte (by omega)]
  exact if_pos (by omega)

lemma first_two {v : Nat} (hlow : 0x7F < v) (hhigh : v ≤ 0x7FF) :
    first (UInt8.ofNat (v / 64 % 0x20 + 0xC0)) =
      .begun { bits := v / 64, width := 1, owed := 0 } := by
  have hbits : v / 64 % 0x20 = v / 64 := by omega
  rw [hbits, first, toNat_byte (by omega)]
  rw [if_neg (by omega), if_neg (by omega), if_pos (by omega), Nat.add_sub_cancel]

/-- After `E0` the second byte is at least `A0`, since shorter encodings exist below; after `ED` it
is at most `9F`, since surrogates are no characters. -/
lemma first_three {v : Nat} (hlow : 0x7FF < v) (hhigh : v ≤ 0xFFFF)
    (hvalid : v < 0xD800 ∨ 0xDFFF < v) :
    ∃ low high, first (UInt8.ofNat (v / 4096 % 0x10 + 0xE0)) = .begun ⟨v / 4096, 1, 1, low, high⟩ ∧
      low ≤ v / 64 % 0x40 + 0x80 ∧ v / 64 % 0x40 + 0x80 ≤ high := by
  have hbits : v / 4096 % 0x10 = v / 4096 := by omega
  rw [hbits, first, toNat_byte (by omega)]
  -- not a byte of its own, not one that is never first, and not the first of two
  rw [if_neg (by omega), if_neg (by omega), if_neg (by omega)]
  by_cases h0 : v / 4096 = 0
  · exact ⟨0xA0, 0xBF, by rw [if_pos (by omega), h0], by omega, by omega⟩
  rw [if_neg (by omega)]
  by_cases hD : v / 4096 = 0xD
  · exact ⟨0x80, 0x9F, by rw [if_pos (by omega), hD], by omega, by omega⟩
  rw [if_neg (by omega), if_pos (by omega), Nat.add_sub_cancel]
  exact ⟨0x80, 0xBF, rfl, by omega, by omega⟩

/-- After `F0` the second byte is at least `90`, and after `F4` it is at most `8F`, where characters
end. -/
lemma first_four {v : Nat} (hlow : 0xFFFF < v) (hhigh : v < 0x110000) :
    ∃ low high,
      first (UInt8.ofNat (v / 262144 % 0x08 + 0xF0)) = .begun ⟨v / 262144, 1, 2, low, high⟩ ∧
      low ≤ v / 4096 % 0x40 + 0x80 ∧ v / 4096 % 0x40 + 0x80 ≤ high := by
  have hbits : v / 262144 % 0x08 = v / 262144 := by omega
  rw [hbits, first, toNat_byte (by omega)]
  rw [if_neg (by omega), if_neg (by omega), if_neg (by omega), if_neg (by omega), if_neg (by omega),
    if_neg (by omega)]
  by_cases h0 : v / 262144 = 0
  · exact ⟨0x90, 0xBF, by rw [if_pos (by omega), h0], by omega, by omega⟩
  rw [if_neg (by omega)]
  by_cases h4 : v / 262144 = 4
  · exact ⟨0x80, 0x8F, by rw [if_neg (by omega), if_pos (by omega), h4], by omega, by omega⟩
  rw [if_pos (by omega), Nat.add_sub_cancel]
  exact ⟨0x80, 0xBF, rfl, by omega, by omega⟩

/-! ## Characters and text -/

theorem decodeFrom_utf8EncodeChar (done : String) (index : Nat) (c : Char) (rest : List UInt8) :
    ∃ next, decodeFrom done index none (String.utf8EncodeChar c ++ rest)
      = decodeFrom (done.push c) next none rest := by
  obtain ⟨v, hv⟩ : ∃ v, v = c.val.toNat := ⟨_, rfl⟩
  have hc : c = Char.ofNat v := by simp [hv]
  have hvalid : v < 0xD800 ∨ 0xDFFF < v ∧ v < 0x110000 := by
    have h := c.valid
    simp only [UInt32.isValidChar, Nat.isValidChar] at h
    rwa [← hv] at h
  unfold String.utf8EncodeChar
  simp only [← hv]
  -- one to four bytes; in each case the bits of the bytes make up the value again
  split
  next h1 =>
    rw [hc]
    exact ⟨_, decodeFrom_whole _ _ _ (first_one h1)⟩
  split
  next h1 h2 =>
    have hv2 : v = v / 64 * 64 + v % 0x40 := by omega
    rw [hc, List.cons_append, decodeFrom_begun _ _ _ (first_two (by omega) h2), List.cons_append,
      decodeFrom_last _ _ _ (by omega) (by simp) (by simp; omega), ← hv2]
    exact ⟨_, rfl⟩
  split
  next h1 h2 h3 =>
    rcases first_three (v := v) (by omega) h3 (by omega) with ⟨low, high, hfirst, hlow, hhigh⟩
    have hv3 : v = (v / 4096 * 64 + v / 64 % 0x40) * 64 + v % 0x40 := by omega
    rw [hc, List.cons_append, decodeFrom_begun _ _ _ hfirst, List.cons_append,
      decodeFrom_next _ _ _ (by omega) hlow hhigh, List.cons_append,
      decodeFrom_last _ _ _ (by omega) (by simp) (by simp; omega), ← hv3]
    exact ⟨_, rfl⟩
  next h1 h2 h3 =>
    rcases first_four (v := v) (by omega) (by omega) with ⟨low, high, hfirst, hlow, hhigh⟩
    have hv4 : v = ((v / 262144 * 64 + v / 4096 % 0x40) * 64 + v / 64 % 0x40) * 64 + v % 0x40 := by
      omega
    rw [hc, List.cons_append, decodeFrom_begun _ _ _ hfirst, List.cons_append,
      decodeFrom_next _ _ _ (by omega) hlow hhigh, List.cons_append,
      decodeFrom_next _ _ _ (by omega) (by simp) (by simp; omega), List.cons_append,
      decodeFrom_last _ _ _ (by omega) (by simp) (by simp; omega), ← hv4]
    exact ⟨_, rfl⟩

theorem decodeFrom_flatMap (done : String) (index : Nat) (cs : List Char) :
    decodeFrom done index none (cs.flatMap String.utf8EncodeChar)
      = .ok (done ++ String.ofList cs) := by
  induction cs generalizing done index with
  | nil => simp [decodeFrom]
  | cons c cs ih =>
    rcases decodeFrom_utf8EncodeChar done index c (cs.flatMap String.utf8EncodeChar) with
      ⟨next, hnext⟩
    rw [List.flatMap_cons, hnext, ih]
    congr 1
    apply String.toList_inj.1
    simp

/-- Text that is encoded is decoded to itself. -/
theorem decode_toUTF8 (text : String) : decode text.toUTF8 = .ok text := by
  have hbytes : text.toUTF8.data.toList = text.toList.flatMap String.utf8EncodeChar := by
    rw [String.toUTF8_eq_toByteArray, ← String.utf8Encode_toList, List.utf8Encode]
    simp
  rw [decode, hbytes, decodeFrom_flatMap]
  simp

end UmlTyping.Utf8
