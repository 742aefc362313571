import CssTemplate.Proofs.Text.Characters
import CssTemplate.Text.StringLiteral

/-!
# Escapes in string literals

`unescape` reads the characters between the quotes of a literal: a character stands for itself unless
it is a quote, a backslash or a control character, which need an escape. There is a short escape for
some characters, and one by code for all. Writing a text chooses one of these for each of its
characters (`literalChar_cases`), so reading gives the text back (`unescape_literal`).
-/

namespace CssTemplate

/-- The character that a short escape stands for, by the character after its backslash. -/
def shortEscape? : Char → Option Char
  | '"' => some '"'
  | '\\' => some '\\'
  | '/' => some '/'
  | 'b' => some '\x08'
  | 'f' => some '\x0c'
  | 'n' => some '\n'
  | 'r' => some '\r'
  | 't' => some '\t'
  | _ => none

/-- The text that the characters between the quotes of a literal stand for. An escape by code has four
hexadecimal digits. -/
def unescape : List Char → Option (List Char)
  | [] => some []
  | '\\' :: 'u' :: d₁ :: d₂ :: d₃ :: d₄ :: rest =>
    let digits := [d₁, d₂, d₃, d₄]
    if digits.all isHexDigit && decide (hexNumber digits).isValidChar then
      (unescape rest).map (Char.ofNat (hexNumber digits) :: ·)
    else none
  | '\\' :: e :: rest =>
    match shortEscape? e with
    | some c => (unescape rest).map (c :: ·)
    | none => none
  | c :: rest =>
    if c = '"' || c = '\\' || c.toNat < 0x20 then none else (unescape rest).map (c :: ·)

/-! ## One character -/

/-- A short escape stands for its character. -/
theorem unescape_short {e c : Char} (h : shortEscape? e = some c) (rest : List Char) :
    unescape ('\\' :: e :: rest) = (unescape rest).map (c :: ·) := by
  have hcode : e ≠ 'u' := by
    rintro rfl
    cases h
  rw [unescape.eq_3 _ _ fun _ _ _ _ _ he _ => hcode he, h]

/-- Any other printable character stands for itself. -/
theorem unescape_cons {c : Char} (hquote : c ≠ '"') (hbackslash : c ≠ '\\') (hcode : 0x20 ≤ c.toNat)
    (rest : List Char) : unescape (c :: rest) = (unescape rest).map (c :: ·) := by
  have hplain : ¬(c = '"' || c = '\\' || decide (c.toNat < 0x20)) = true := by
    simpa [hquote, hbackslash] using hcode
  rw [unescape.eq_4 _ _ (fun _ _ _ _ _ hc => absurd hc hbackslash) fun _ _ hc => absurd hc hbackslash,
    if_neg hplain]

/-- The digits of a control character. -/
theorem hexLower_control : ∀ code < 0x20, (hexLower 4 code).length = 4 ∧
    (hexLower 4 code).all isHexDigit = true ∧ hexNumber (hexLower 4 code) = code := by
  decide

/-- A numeric escape stands for the character of its code. -/
theorem unescape_code {c : Char} (h : c.toNat < 0x20) (rest : List Char) :
    unescape ('\\' :: 'u' :: (hexLower 4 c.toNat ++ rest)) = (unescape rest).map (c :: ·) := by
  obtain ⟨hlength, hall, hnumber⟩ := hexLower_control c.toNat h
  obtain ⟨d₁, d₂, d₃, d₄, hdigits⟩ : ∃ d₁ d₂ d₃ d₄, hexLower 4 c.toNat = [d₁, d₂, d₃, d₄] := by
    obtain ⟨d₁, digits, hdigits⟩ := List.exists_cons_of_length_eq_add_one hlength
    rw [hdigits, List.length_cons, Nat.add_right_cancel_iff] at hlength
    obtain ⟨d₂, d₃, d₄, rfl⟩ := List.length_eq_three.1 hlength
    exact ⟨d₁, d₂, d₃, d₄, hdigits⟩
  rw [hdigits] at hall hnumber ⊢
  have hvalid : (hexNumber [d₁, d₂, d₃, d₄]).isValidChar := hnumber ▸ c.valid
  simp only [List.cons_append, List.nil_append, unescape]
  rw [hall, decide_eq_true hvalid, Bool.and_self, if_pos rfl, hnumber, Char.ofNat_toNat]

/-- Everything that a character can be written as. -/
theorem literalChar_cases (c : Char) :
    (∃ e, literalChar c = ['\\', e] ∧ shortEscape? e = some c) ∨
    (c.toNat < 0x20 ∧ literalChar c = '\\' :: 'u' :: hexLower 4 c.toNat) ∨
    (0x20 ≤ c.toNat ∧ c ≠ '"' ∧ c ≠ '\\' ∧ literalChar c = [c]) := by
  fun_cases literalChar c with
  | case1 h => exact .inl ⟨_, rfl, congrArg some h.symm⟩
  | case2 _ h => exact .inl ⟨_, rfl, congrArg some h.symm⟩
  | case3 _ _ h => exact .inl ⟨_, rfl, congrArg some h.symm⟩
  | case4 _ _ _ h => exact .inl ⟨_, rfl, congrArg some h.symm⟩
  | case5 _ _ _ _ h => exact .inl ⟨_, rfl, congrArg some h.symm⟩
  | case6 _ _ _ _ _ h => exact .inl ⟨_, rfl, congrArg some (@Char.toNat_inj '\x08' c |>.1 h.symm)⟩
  | case7 _ _ _ _ _ _ h => exact .inl ⟨_, rfl, congrArg some (@Char.toNat_inj '\x0c' c |>.1 h.symm)⟩
  | case8 _ _ _ _ _ _ _ h => exact .inr (.inl ⟨h, rfl⟩)
  | case9 hquote hbackslash _ _ _ _ _ h =>
    exact .inr (.inr ⟨Nat.le_of_not_lt h, hquote, hbackslash, rfl⟩)

/-- The letter of a short escape is printable. -/
theorem le_toNat_of_shortEscape? {e c : Char} (h : shortEscape? e = some c) : 0x20 ≤ e.toNat := by
  unfold shortEscape? at h
  split at h
  any_goals decide
  cases h

/-! ## Texts -/

/-- No control character is left in a literal. -/
theorem le_toNat_of_mem_literal {text : List Char} :
    ∀ c ∈ text.flatMap literalChar, 0x20 ≤ c.toNat := by
  intro c hc
  obtain ⟨d, -, hc⟩ := List.mem_flatMap.1 hc
  rcases literalChar_cases d with ⟨e, heq, he⟩ | ⟨hcode, heq⟩ | ⟨hcode, -, -, heq⟩ <;> rw [heq] at hc
  · rcases List.mem_cons.1 hc with rfl | hc
    · decide
    · rw [List.mem_singleton.1 hc]
      exact le_toNat_of_shortEscape? he
  · rcases List.mem_cons.1 hc with rfl | hc
    · decide
    · rcases List.mem_cons.1 hc with rfl | hc
      · decide
      · have hdigit := List.all_eq_true.1 (hexLower_control d.toNat hcode).2.1 c hc
        have := isHexDigit_iff.1 hdigit
        omega
  · rwa [List.mem_singleton.1 hc]

/-- What is written for a character stands for it. -/
theorem unescape_literalChar (c : Char) (rest : List Char) :
    unescape (literalChar c ++ rest) = (unescape rest).map (c :: ·) := by
  rcases literalChar_cases c with ⟨e, heq, he⟩ | ⟨hcode, heq⟩ | ⟨hcode, hquote, hbackslash, heq⟩
  · rw [heq]
    exact unescape_short he rest
  · rw [heq]
    exact unescape_code hcode rest
  · rw [heq]
    exact unescape_cons hquote hbackslash hcode rest

/-- Reading gives back the text that was written. -/
theorem unescape_literal (text : List Char) : unescape (text.flatMap literalChar) = some text := by
  induction text with
  | nil => rfl
  | cons c text ih => rw [List.flatMap_cons, unescape_literalChar, ih, Option.map_some]

end CssTemplate
