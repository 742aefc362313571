import CssTemplate.Text.Blank

/-!
# CSS numbers

A number is an optional sign, digits with an optional fraction, and an optional exponent. Its
text is kept as it is written. `length_of_readNumber?` says that reading one shortens the rest.
-/

namespace CssTemplate.Css

/-- The longest run of ASCII digits. -/
def digits (text : List Char) : List Char :=
  text.takeWhile Char.isDigit

/-- The text after its longest run of ASCII digits. -/
def afterDigits (text : List Char) : List Char :=
  text.dropWhile Char.isDigit

/-- An optional sign, and the rest. -/
def readSign : List Char → List Char × List Char
  | '+' :: rest => (['+'], rest)
  | '-' :: rest => (['-'], rest)
  | text => ([], text)

/-- Digits, or digits and a fraction. A point counts only when a digit follows it. -/
def readMantissa? (text : List Char) : Option (List Char × List Char) :=
  let whole := digits text
  let plain := if whole.isEmpty then none else some (whole, afterDigits text)
  match afterDigits text with
  | '.' :: rest =>
    if (digits rest).isEmpty then plain
    else some (whole ++ '.' :: digits rest, afterDigits rest)
  | _ => plain

/-- An exponent, or nothing where the letter is not followed by digits. -/
def readExponent (text : List Char) : List Char × List Char :=
  match text with
  | [] => ([], [])
  | e :: rest =>
    if e == 'e' || e == 'E' then
      let signed := readSign rest
      if (digits signed.2).isEmpty then ([], text)
      else (e :: (signed.1 ++ digits signed.2), afterDigits signed.2)
    else ([], text)

/-- The text of a number at the front of the input, and the rest. -/
def readNumber? (text : List Char) : Option (List Char × List Char) :=
  match readMantissa? (readSign text).2 with
  | none => none
  | some (mantissa, rest) =>
    some ((readSign text).1 ++ mantissa ++ (readExponent rest).1, (readExponent rest).2)

/-! ## Lengths -/

/-- Digits leave no more than there was. -/
theorem length_afterDigits_le (text : List Char) :
    (afterDigits text).length ≤ text.length :=
  length_dropWhile_le _ _

/-- A sign leaves no more than there was. -/
theorem length_readSign_le (text : List Char) : (readSign text).2.length ≤ text.length := by
  unfold readSign; split <;> simp

/-- Some digits leave less than there was. -/
theorem length_afterDigits_lt {text : List Char} (h : (digits text).isEmpty = false) :
    (afterDigits text).length < text.length := by
  have hl : text.length = (digits text).length + (afterDigits text).length := by
    rw [← List.length_append, digits, afterDigits, List.takeWhile_append_dropWhile]
  have hpos : 0 < (digits text).length := by
    cases hd : digits text with
    | nil => simp [hd] at h
    | cons => simp
  omega

/-- A mantissa leaves less than there was. -/
theorem length_of_readMantissa? {text mantissa rest : List Char}
    (h : readMantissa? text = some (mantissa, rest)) : rest.length < text.length := by
  have plain : ∀ {m r : List Char},
      (if (digits text).isEmpty then none else some (digits text, afterDigits text)) = some (m, r) →
      r.length < text.length := by
    intro m r hm
    split at hm
    · cases hm
    · next he => cases hm; exact length_afterDigits_lt (by simpa using he)
  unfold readMantissa? at h
  simp only at h
  split at h
  · next after hp =>
    split at h
    · exact plain h
    · cases h
      have h1 := length_afterDigits_le text
      have h2 := length_afterDigits_le after
      rw [hp, List.length_cons] at h1
      omega
  · exact plain h

/-- An exponent leaves no more than there was. -/
theorem length_readExponent_le (text : List Char) :
    (readExponent text).2.length ≤ text.length := by
  unfold readExponent
  split
  · exact Nat.le_refl _
  · next e rest =>
    simp only
    split
    · split
      · exact Nat.le_refl _
      · have h1 := length_readSign_le rest
        have h2 := length_afterDigits_le (readSign rest).2
        simp only [List.length_cons]
        omega
    · exact Nat.le_refl _

/-- A numeral leaves less than there was. -/
theorem length_of_readNumber? {text numeral rest : List Char}
    (h : readNumber? text = some (numeral, rest)) : rest.length < text.length := by
  unfold readNumber? at h
  split at h
  · cases h
  · next mantissa after hm =>
    cases h
    have h1 := length_of_readMantissa? hm
    have h2 := length_readSign_le text
    have h3 := length_readExponent_le after
    omega

end CssTemplate.Css
