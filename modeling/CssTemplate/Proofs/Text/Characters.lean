import Mathlib
import CssTemplate.Text.Blank
import CssTemplate.Text.Identifier
import CssTemplate.Text.Numeral

/-!
# Characters and their codes

The ASCII letters and digits by their codes, and what sets words and identifiers apart from blanks
and from punctuation.
-/

namespace CssTemplate

variable {c : Char}

/-- Digits by code point. -/
theorem isDigit_iff : c.isDigit = true ↔ 48 ≤ c.toNat ∧ c.toNat ≤ 57 := by
  simp [Char.isDigit, UInt32.le_iff_toNat_le, ← Char.toNat_val]

/-- ASCII letters by code point. -/
theorem isAlpha_iff : c.isAlpha = true ↔
    65 ≤ c.toNat ∧ c.toNat ≤ 90 ∨ 97 ≤ c.toNat ∧ c.toNat ≤ 122 := by
  simp [Char.isAlpha, Char.isUpper, Char.isLower, UInt32.le_iff_toNat_le, ← Char.toNat_val]

/-- Hexadecimal digits by code point. -/
theorem isHexDigit_iff : isHexDigit c = true ↔
    48 ≤ c.toNat ∧ c.toNat ≤ 57 ∨ 97 ≤ c.toNat ∧ c.toNat ≤ 102 ∨
      65 ≤ c.toNat ∧ c.toNat ≤ 70 := by
  simp [isHexDigit, isDigit_iff, Char.le_def, UInt32.le_iff_toNat_le, ← Char.toNat_val, or_assoc]

/-- A letter that is not small is its own capital. -/
theorem toUpper_eq_self_iff : c.toUpper = c ↔ c.isLower = false := by
  unfold Char.toUpper Char.isLower
  split
  · next h =>
    refine iff_of_false (fun heq => ?_) (by simpa using h)
    have hval := congrArg Char.val heq
    simp at hval
  · next h => simpa [imp_iff_not_or, Decidable.not_and_iff_or_not] using h

/-- An ASCII letter or digit is not blank. -/
theorem isBlank_of_isAlphanum (h : c.isAlphanum = true) : isBlank c = false := by
  rw [Char.isAlphanum, Bool.or_eq_true, isAlpha_iff, isDigit_iff] at h
  simp [isBlank]
  omega

/-- No blank outside ASCII is a letter or a number. -/
theorem not_alphanumeric_blanks :
    ∀ code ∈ [0x85, 0xA0, 0x1680, 0x2000, 0x2001, 0x2002, 0x2003, 0x2004, 0x2005, 0x2006, 0x2007,
      0x2008, 0x2009, 0x200A, 0x2028, 0x2029, 0x202F, 0x205F, 0x3000],
      alphanumericRanges.contains code = false := by
  decide +kernel

/-- A word character is not blank. -/
theorem isBlank_of_isWord (h : isWord c = true) : isBlank c = false := by
  rw [isWord, Bool.or_eq_true, beq_iff_eq] at h
  rcases h with rfl | h
  · rfl
  · unfold isAlphanumeric at h
    split at h
    · exact isBlank_of_isAlphanum h
    · next hascii =>
      refine Bool.eq_false_iff.2 fun hblank => ?_
      have hnone : alphanumericRanges.contains c.toNat = false := by
        refine not_alphanumeric_blanks c.toNat ?_
        simp [isBlank] at hblank
        simp
        omega
      rw [h] at hnone
      cases hnone

/-- A character of an identifier is not blank. -/
theorem isBlank_of_continuesIdentifier (h : continuesIdentifier c = true) : isBlank c = false := by
  rw [continuesIdentifier, Bool.or_eq_true, beq_iff_eq] at h
  rcases h with h | rfl
  · exact isBlank_of_isWord h
  · rfl

/-- What starts an identifier can also follow in one. -/
theorem continuesIdentifier_of_starts (h : startsIdentifier c = true) :
    continuesIdentifier c = true := by
  simp only [startsIdentifier, Bool.or_eq_true, beq_iff_eq] at h
  rcases h with (h | rfl) | rfl
  · have hascii : c.toNat < 0x80 := by
      have := isAlpha_iff.1 h
      omega
    rw [continuesIdentifier, isWord, isAlphanumeric, if_pos hascii, Char.isAlphanum, h]
    simp
  · rfl
  · rfl

/-- Every character of an identifier may stand in one. -/
theorem continuesIdentifier_of_mem {name : List Char} (h : isIdentifier name = true) :
    ∀ c ∈ name, continuesIdentifier c = true := by
  cases name with
  | nil => cases h
  | cons first name =>
    rw [isIdentifier, Bool.and_eq_true, List.all_eq_true] at h
    exact List.forall_mem_cons.2 ⟨continuesIdentifier_of_starts h.1, h.2⟩

end CssTemplate
