import CssTemplate.Proofs.Css.Spelling
import CssTemplate.Proofs.Css.Tame
import CssTemplate.Proofs.Text.Trimmed
import Mathlib

/-!
# Numbers and code points, read back

A number has a sign, digits, a fraction and an exponent, of which some may be missing (`IsNumeral`).
Every number that is read is of this form (`exists_of_readNumber?`), and every text of this form is read
as one number, if none of its parts goes on after it (`IsNumeral.readNumber?`). The ends of a Unicode
range are written with hexadecimal digits, from which their values come back (`hexNumber_hexUpper`).
-/

namespace CssTemplate.Css

/-! ## The parts of a number -/

/-- One digit or more. -/
structure IsDigits (text : List Char) : Prop where
  ne_nil : text ≠ []
  digits : ∀ c ∈ text, c.isDigit = true

/-- No sign, or one. -/
def IsSign (text : List Char) : Prop :=
  text = [] ∨ text = ['+'] ∨ text = ['-']

/-- No fraction, or a point and digits. -/
def IsFraction (text : List Char) : Prop :=
  text = [] ∨ ∃ ds, IsDigits ds ∧ text = '.' :: ds

/-- No exponent, or a letter, a sign and digits. -/
def IsExponent (text : List Char) : Prop :=
  text = [] ∨ ∃ e sign ds, (e = 'e' ∨ e = 'E') ∧ IsSign sign ∧ IsDigits ds ∧ text = e :: (sign ++ ds)

/-- The parts of a number. -/
structure IsNumeral (sign whole fraction exponent : List Char) : Prop where
  isSign : IsSign sign
  isWhole : ∀ c ∈ whole, c.isDigit = true
  isFraction : IsFraction fraction
  filled : whole ≠ [] ∨ fraction ≠ []
  isExponent : IsExponent exponent

section
variable {sign whole fraction exponent text rest : List Char}

/-! ## Reading a number back -/

/-- A sign is read back before anything but another sign. -/
theorem readSign_of_isSign (h : IsSign sign) (hrest : ∀ c ∈ rest.head?, c ≠ '+' ∧ c ≠ '-') :
    readSign (sign ++ rest) = (sign, rest) := by
  rcases h with rfl | rfl | rfl
  · cases rest with
    | nil => rfl
    | cons c rest =>
      obtain ⟨hplus, hminus⟩ := hrest c rfl
      simp [readSign, hplus, hminus]
  · rfl
  · rfl

/-- Digits are read back before anything but another digit. -/
theorem digits_append_stop {ds : List Char} (hds : ∀ c ∈ ds, c.isDigit = true)
    (hrest : ∀ c ∈ rest.head?, c.isDigit = false) :
    digits (ds ++ rest) = ds ∧ afterDigits (ds ++ rest) = rest :=
  takeWhile_dropWhile_append hds hrest

/-- A digit is no sign. -/
theorem ne_sign_of_isDigit {c : Char} (h : c.isDigit = true) : c ≠ '+' ∧ c ≠ '-' := by
  constructor
  · rintro rfl
    cases h
  · rintro rfl
    cases h

/-- A text of digits starts with one, whatever follows it. -/
theorem IsDigits.head (h : IsDigits text) : ∀ c ∈ (text ++ rest).head?, c.isDigit = true := by
  obtain ⟨d, more, rfl⟩ := List.exists_cons_of_ne_nil h.ne_nil
  rintro c ⟨⟩
  exact h.digits d (.head _)

/-- An exponent is read back before anything but another digit. -/
theorem readExponent_of_isExponent (h : IsExponent exponent)
    (hdigit : ∀ c ∈ rest.head?, c.isDigit = false)
    (hnone : exponent = [] → readExponent rest = ([], rest)) :
    readExponent (exponent ++ rest) = (exponent, rest) := by
  rcases h with rfl | ⟨e, sign, ds, he, hsign, hds, rfl⟩
  · exact hnone rfl
  · have hread : readSign (sign ++ (ds ++ rest)) = (sign, ds ++ rest) :=
      readSign_of_isSign hsign fun c hc => ne_sign_of_isDigit (hds.head c hc)
    obtain ⟨hspan, hafter⟩ := digits_append_stop hds.digits hdigit
    have hletter : (e == 'e' || e == 'E') = true := by simpa using he
    rw [List.cons_append, List.append_assoc, readExponent, if_pos hletter, hread]
    simp only [hspan, hafter, List.isEmpty_iff, hds.ne_nil, if_false]

/-- Where the digits of a number end: no further digit, and no fraction if it could still have one. -/
structure EndsDigits (fraction exponent rest : List Char) : Prop where
  digit : ∀ c ∈ rest.head?, c.isDigit = false
  point : fraction = [] → exponent = [] → ∀ more, rest = '.' :: more → digits more = []
  letter : exponent = [] → readExponent rest = ([], rest)

/-- An exponent starts with its letter. -/
theorem IsExponent.head (h : IsExponent exponent) (hne : exponent ≠ []) :
    ∃ e more, exponent = e :: more ∧ (e = 'e' ∨ e = 'E') := by
  rcases h with rfl | ⟨e, sign, ds, he, -, -, rfl⟩
  · exact absurd rfl hne
  · exact ⟨e, _, rfl, he⟩

/-- Where the digits of a numeral end, no digit follows. -/
theorem EndsDigits.not_digit (h : EndsDigits fraction exponent rest) (hexponent : IsExponent exponent) :
    ∀ c ∈ (exponent ++ rest).head?, c.isDigit = false := by
  by_cases hne : exponent = []
  · rw [hne]
    exact h.digit
  · obtain ⟨e, more, rfl, he⟩ := hexponent.head hne
    rintro c ⟨⟩
    rcases he with rfl | rfl <;> rfl

/-- A mantissa is read back from its parts where its digits end. -/
theorem readMantissa?_of_parts (hwhole : ∀ c ∈ whole, c.isDigit = true) (hfraction : IsFraction fraction)
    (hfilled : whole ≠ [] ∨ fraction ≠ []) (hexponent : IsExponent exponent)
    (hends : EndsDigits fraction exponent rest) :
    readMantissa? (whole ++ fraction ++ (exponent ++ rest)) =
      some (whole ++ fraction, exponent ++ rest) := by
  have hstop := hends.not_digit hexponent
  rcases hfraction with rfl | ⟨ds, hds, rfl⟩
  · obtain ⟨hspan, hafter⟩ := digits_append_stop hwhole hstop
    have hne : whole ≠ [] := hfilled.resolve_right fun h => h rfl
    rw [List.append_nil]
    by_cases hpoint : ∃ more, exponent ++ rest = '.' :: more
    · obtain ⟨more, hmore⟩ := hpoint
      have hnone : exponent = [] := by
        by_contra hexp
        obtain ⟨e, tail, rfl, he⟩ := hexponent.head hexp
        obtain ⟨rfl, -⟩ := List.cons.inj hmore
        simp at he
      have hmore' : rest = '.' :: more := by simpa [hnone] using hmore
      rw [readMantissa?_of_point (hafter.trans hmore), hends.point rfl hnone more hmore', hspan, hafter,
        if_pos List.isEmpty_nil, if_neg (by simpa using hne)]
    · rw [readMantissa?_of_no_point, hspan, hafter, if_neg (by simpa using hne)]
      rw [hafter]
      intro hhead
      obtain ⟨more, hmore⟩ := List.head?_eq_some_iff.1 hhead
      exact hpoint ⟨more, hmore⟩
  · have hpoint : ∀ c ∈ ('.' :: (ds ++ (exponent ++ rest))).head?, c.isDigit = false := by
      rintro c ⟨⟩
      rfl
    obtain ⟨hspan, hafter⟩ := digits_append_stop hwhole hpoint
    obtain ⟨hspan', hafter'⟩ := digits_append_stop hds.digits hstop
    rw [List.append_assoc, List.cons_append, readMantissa?_of_point hafter, hspan, hspan', hafter',
      if_neg (by simpa using hds.ne_nil)]

/-- A number is read back, up to where none of its parts goes on. -/
theorem IsNumeral.readNumber? (h : IsNumeral sign whole fraction exponent)
    (hends : EndsDigits fraction exponent rest) :
    readNumber? (sign ++ (whole ++ fraction) ++ exponent ++ rest) =
      some (sign ++ (whole ++ fraction) ++ exponent, rest) := by
  have hhead : ∀ c ∈ (whole ++ fraction ++ (exponent ++ rest)).head?, c ≠ '+' ∧ c ≠ '-' := by
    cases whole with
    | cons d whole =>
      rintro c ⟨⟩
      exact ne_sign_of_isDigit (h.isWhole d (.head _))
    | nil =>
      rcases h.isFraction with rfl | ⟨ds, hds, rfl⟩
      · exact absurd (h.filled.resolve_left fun h => h rfl) fun h => h rfl
      · rintro c ⟨⟩
        decide
  have hmantissa := readMantissa?_of_parts h.isWhole h.isFraction h.filled h.isExponent hends
  have hexponent := readExponent_of_isExponent h.isExponent hends.digit hends.letter
  rw [List.append_assoc, List.append_assoc, Css.readNumber?, readSign_of_isSign h.isSign hhead]
  simp only [hmantissa, hexponent]

/-! ## What is read as a number -/

/-- What is read of a sign is one. -/
theorem isSign_readSign (text : List Char) : IsSign (readSign text).1 := by
  unfold readSign
  split
  · exact .inr (.inl rfl)
  · exact .inr (.inr rfl)
  · exact .inl rfl

/-- What is read as digits are digits. -/
theorem isDigit_of_mem_digits {c : Char} (h : c ∈ digits text) : c.isDigit = true :=
  List.all_eq_true.1 List.all_takeWhile c h

/-- Digits are a text of digits unless there are none. -/
theorem isDigits_digits (h : ¬(digits text).isEmpty = true) : IsDigits (digits text) :=
  ⟨fun hnil => h (List.isEmpty_iff.2 hnil), fun _ hc => isDigit_of_mem_digits hc⟩

/-- A mantissa is made of digits and a fraction, one of which is there. -/
theorem exists_of_readMantissa? {mantissa : List Char} (h : readMantissa? text = some (mantissa, rest)) :
    ∃ whole fraction, mantissa = whole ++ fraction ∧ (∀ c ∈ whole, c.isDigit = true) ∧
      IsFraction fraction ∧ (whole ≠ [] ∨ fraction ≠ []) := by
  have hplain : (if (digits text).isEmpty then none else some (digits text, afterDigits text)) =
      some (mantissa, rest) → ∃ whole fraction, mantissa = whole ++ fraction ∧
        (∀ c ∈ whole, c.isDigit = true) ∧ IsFraction fraction ∧ (whole ≠ [] ∨ fraction ≠ []) := by
    intro h
    split at h
    · cases h
    · next hne =>
      cases h
      exact ⟨digits text, [], (List.append_nil _).symm, fun _ hc => isDigit_of_mem_digits hc, .inl rfl,
        .inl (isDigits_digits hne).ne_nil⟩
  by_cases hpoint : ∃ after, afterDigits text = '.' :: after
  · obtain ⟨after, hafter⟩ := hpoint
    rw [readMantissa?_of_point hafter] at h
    split at h
    · exact hplain h
    · next hne =>
      cases h
      exact ⟨digits text, '.' :: digits after, rfl, fun _ hc => isDigit_of_mem_digits hc,
        .inr ⟨_, isDigits_digits hne, rfl⟩, .inr (List.cons_ne_nil _ _)⟩
  · rw [readMantissa?_of_no_point] at h
    · exact hplain h
    · intro hhead
      obtain ⟨after, hafter⟩ := List.head?_eq_some_iff.1 hhead
      exact hpoint ⟨after, hafter⟩

/-- What is read of an exponent is one. -/
theorem isExponent_readExponent (text : List Char) : IsExponent (readExponent text).1 := by
  unfold readExponent
  split
  · exact .inl rfl
  · next e rest =>
    simp only
    split
    · next he =>
      split
      · exact .inl rfl
      · next hne =>
        exact .inr ⟨e, _, _, by simpa using he, isSign_readSign rest, isDigits_digits hne, rfl⟩
    · exact .inl rfl

/-- Every number that is read has its parts. -/
theorem exists_of_readNumber? {numeral : List Char} (h : readNumber? text = some (numeral, rest)) :
    ∃ sign whole fraction exponent, IsNumeral sign whole fraction exponent ∧
      numeral = sign ++ (whole ++ fraction) ++ exponent := by
  unfold Css.readNumber? at h
  split at h
  · cases h
  · next mantissa after hmantissa =>
    cases h
    obtain ⟨whole, fraction, rfl, hwhole, hfraction, hfilled⟩ := exists_of_readMantissa? hmantissa
    exact ⟨_, whole, fraction, _,
      ⟨isSign_readSign text, hwhole, hfraction, hfilled, isExponent_readExponent after⟩, rfl⟩

/-- A number starts where a digit does. -/
theorem readNumber?_of_isDigit {c : Char} (h : c.isDigit = true) (rest : List Char) :
    readNumber? (c :: rest) ≠ none := by
  have hsign : readSign (c :: rest) = ([], c :: rest) :=
    readSign_of_isSign (.inl rfl) (by rintro d ⟨⟩; exact ne_sign_of_isDigit h)
  have hne : ¬(digits (c :: rest)).isEmpty = true := by simp [digits, h]
  have hmantissa : readMantissa? (c :: rest) ≠ none := by
    unfold readMantissa?
    simp only [if_neg hne]
    split
    · split <;> simp
    · simp
  unfold Css.readNumber?
  rw [hsign]
  split
  · next heq => exact absurd heq hmantissa
  · simp

end

/-! ## Unicode ranges -/

/-- The value of a written digit is the digit. -/
theorem hexValue_digitChar : ∀ d < 16, hexValue (Nat.digitChar d).toUpper = d := by decide

/-- A number is written without leading zeros as its hexadecimal digits in upper case. -/
theorem hexUpper_eq (n : Nat) : hexUpper 1 n = (Nat.toDigits 16 n).map Char.toUpper := by
  have hlength : 1 - (Nat.toDigits 16 n).length = 0 := by
    have := @Nat.length_toDigits_pos 16 n
    omega
  rw [hexUpper, hexLower, padZeros, hlength]
  rfl

/-- The value of a number comes back from its hexadecimal digits. -/
theorem hexNumber_hexUpper (n : Nat) : hexNumber (hexUpper 1 n) = n := by
  rw [hexUpper_eq]
  induction n using Nat.strongRecOn with
  | ind n ih =>
    rw [Nat.toDigits_eq_if (by decide)]
    split
    · next hn =>
      have hvalue := hexValue_digitChar n hn
      simpa [hexNumber] using hvalue
    · next hn =>
      have hdiv := ih (n / 16) (Nat.div_lt_self (by omega) (by decide))
      have hvalue := hexValue_digitChar (n % 16) (Nat.mod_lt _ (by decide))
      rw [hexNumber] at hdiv
      rw [hexNumber, List.map_append, List.foldl_append, hdiv]
      simp only [List.map_cons, List.map_nil, List.foldl_cons, List.foldl_nil, hvalue]
      omega

/-- Every number is written with at least one digit. -/
theorem hexUpper_ne_nil (n : Nat) : hexUpper 1 n ≠ [] := by
  simp [hexUpper_eq, Nat.toDigits_ne_nil]

/-- A number below the bound is written with at most six digits. -/
theorem length_hexUpper {n : Nat} (h : n < 0x1000000) : (hexUpper 1 n).length ≤ 6 := by
  rw [hexUpper_eq, List.length_map]
  exact Nat.toDigits_length 16 n 6 (by decide) (by omega)

/-- Six hexadecimal digits stay below the bound. -/
theorem hexNumber_lt {digits : List Char} (h : digits.length ≤ 6) : hexNumber digits < 0x1000000 := by
  have hpow : 16 ^ digits.length ≤ 16 ^ 6 := Nat.pow_le_pow_right (by decide) h
  calc hexNumber digits < (0 + 1) * 16 ^ digits.length := (hexNumber_bounds digits 0).2
    _ ≤ (0 + 1) * 16 ^ 6 := Nat.mul_le_mul_left _ hpow
    _ = 0x1000000 := by decide

/-- Whether a Unicode range goes on here. -/
def continuesRange (text : List Char) : Bool :=
  text.head?.any (fun c => isHexDigit c || c == '?') ||
    (text.head? == some '-' && text.tail.head?.any isHexDigit)

/-- Where no question mark starts the text, none is read. -/
theorem spanQuestionMarks_of_ne {limit : Nat} {text : List Char} (h : text.head? ≠ some '?') :
    spanQuestionMarks limit text = (0, text) := by
  unfold spanQuestionMarks
  split
  · exact absurd rfl h
  · rfl

/-- A number that is written in hexadecimal digits is read back. -/
theorem spanHex_hexUpper {n : Nat} (h : n < 0x1000000) {rest : List Char}
    (hrest : ∀ c ∈ rest.head?, isHexDigit c = false) :
    spanHex 6 (hexUpper 1 n ++ rest) = (hexUpper 1 n, rest) :=
  spanHex_append (fun _ hd => isHexDigit_of_mem_hexUpper hd) (length_hexUpper h) hrest

/-- The end of a range that is its start too. -/
theorem readUnicodeRange_single {n : Nat} {rest : List Char} (h : n < 0x1000000)
    (hrest : continuesRange rest = false) :
    readUnicodeRange (hexUpper 1 n ++ rest) = (.unicodeRange n n, rest) := by
  rw [continuesRange, Bool.or_eq_false_iff] at hrest
  obtain ⟨hhead, hhyphen⟩ := hrest
  have hhex : ∀ c ∈ rest.head?, isHexDigit c = false := by
    intro c hc
    rw [Option.mem_def.1 hc, Option.any_some, Bool.or_eq_false_iff] at hhead
    exact hhead.1
  have hmark : rest.head? ≠ some '?' := by
    intro hc
    rw [hc] at hhead
    cases hhead
  unfold readUnicodeRange
  simp only [spanHex_hexUpper h hhex, spanQuestionMarks_of_ne hmark, ne_eq, not_true_eq_false, if_false,
    hexNumber_hexUpper]
  split
  · next c more =>
    have hc : isHexDigit c = false := by simpa using hhyphen
    rw [if_neg (by simp [hc])]
  · rfl

/-- A Unicode range that is written as its two ends is read back. -/
theorem readUnicodeRange_pair {first last : Nat} {rest : List Char} (hfirst : first < 0x1000000)
    (hlast : last < 0x1000000) (hrest : ∀ c ∈ rest.head?, isHexDigit c = false) :
    readUnicodeRange (hexUpper 1 first ++ '-' :: (hexUpper 1 last ++ rest)) =
      (.unicodeRange first last, rest) := by
  obtain ⟨d, more, hd⟩ := List.exists_cons_of_ne_nil (hexUpper_ne_nil last)
  have hhex : isHexDigit d = true := isHexDigit_of_mem_hexUpper (hd ▸ List.mem_cons_self)
  have hspan := spanHex_hexUpper hlast hrest
  have hspan' := @spanHex_hexUpper first hfirst ('-' :: (hexUpper 1 last ++ rest)) (by rintro c ⟨⟩; rfl)
  have hmarks : ∀ limit, spanQuestionMarks limit ('-' :: (hexUpper 1 last ++ rest)) =
      (0, '-' :: (hexUpper 1 last ++ rest)) := fun limit => spanQuestionMarks_of_ne (by simp)
  unfold readUnicodeRange
  simp only [hspan', hmarks, ne_eq, not_true_eq_false, if_false, hexNumber_hexUpper]
  rw [hd, List.cons_append] at hspan ⊢
  simp only [hhex, if_true, hspan, ← hd, hexNumber_hexUpper]

end CssTemplate.Css
