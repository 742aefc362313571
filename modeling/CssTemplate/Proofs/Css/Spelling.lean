import CssTemplate.Proofs.Css.Plain
import CssTemplate.Proofs.Css.Tidy
import CssTemplate.Proofs.Css.RecoloredText
import Mathlib

/-!
# The spelling of names

A name is spelled character by character: as it is, after a backslash, or as a code with a space that
ends it. What spells a name is read back as that name, if the text after it does not go on with one
(`Spells.readName`). The space after a code is not needed at the end of a name, unless other white space
follows; it is all that trimming can take away from a spelling (`Spells.exists_last`).
-/

namespace CssTemplate.Css

/-- Whether a name goes on here. -/
def continuesName (text : List Char) : Bool :=
  text.head?.any isNameChar || startsEscape text

/-- Hexadecimal digits that name a character. -/
structure IsCode (digits : List Char) (c : Char) : Prop where
  ne_nil : digits ≠ []
  length_le : digits.length ≤ 6
  hex : ∀ d ∈ digits, isHexDigit d = true
  value : escapedChar (hexNumber digits) = c

/-- The characters that are written as codes where they have to be escaped. -/
def codedChars : List Char :=
  ['\n', '\r', '\x0c']

/-- A text that spells a name. A short spelling may end in a code without its space. -/
inductive Spells : Bool → List Char → List Char → Prop where
  | nil {short : Bool} : Spells short [] []
  | char {short : Bool} {c : Char} {text name : List Char} (hc : isNameChar c = true)
      (h : Spells short text name) : Spells short (c :: text) (c :: name)
  | escape {short : Bool} {c : Char} {text name : List Char} (hc : isHexDigit c = false)
      (hcode : c ∉ codedChars) (h : Spells short text name) :
      Spells short ('\\' :: c :: text) (c :: name)
  | code {short : Bool} {c : Char} {digits text name : List Char} (hdigits : IsCode digits c)
      (h : Spells short text name) : Spells short ('\\' :: (digits ++ ' ' :: text)) (c :: name)
  | lastCode {c : Char} {digits : List Char} (hdigits : IsCode digits c) :
      Spells true ('\\' :: digits) [c]

/-! ## Reading a name back -/

section
variable {short : Bool} {digits text name rest : List Char} {c : Char}

/-- A hexadecimal digit is a name character. -/
theorem isNameChar_of_isHexDigit (h : isHexDigit c = true) : isNameChar c = true := by
  rw [isHexDigit_iff] at h
  have hletter : c.isDigit = true ∨ c.isAlpha = true := by
    rw [isDigit_iff, isAlpha_iff]
    omega
  rcases hletter with h | h <;> simp [isNameChar, startsName, h]

/-- Digits are read up to a character that is none. -/
theorem spanHex_append {limit : Nat} (hdigits : ∀ d ∈ digits, isHexDigit d = true)
    (hlength : digits.length ≤ limit) (hrest : ∀ d ∈ rest.head?, isHexDigit d = false) :
    spanHex limit (digits ++ rest) = (digits, rest) := by
  induction digits generalizing limit with
  | nil =>
    cases limit with
    | zero => rfl
    | succ limit =>
      cases rest with
      | nil => rfl
      | cons d rest => simp [spanHex, hrest d rfl]
  | cons d digits ih =>
    cases limit with
    | zero => simp at hlength
    | succ limit =>
      obtain ⟨hd, hdigits⟩ := List.forall_mem_cons.1 hdigits
      rw [List.cons_append, spanHex, if_pos hd, ih hdigits (by simpa using hlength)]

/-- A character that is no hexadecimal digit is escaped by a backslash alone. -/
theorem readEscape_char (hc : isHexDigit c = false) (text : List Char) :
    readEscape (c :: text) = (c, text) := by
  simp [readEscape, spanHex, hc]

/-- A code is read up to a character that is no digit, with one white space behind it. -/
theorem readEscape_code (h : IsCode digits c) (hrest : ∀ d ∈ rest.head?, isHexDigit d = false) :
    readEscape (digits ++ rest) = (c, skipOneSpace rest) := by
  obtain ⟨d, more, hdigits⟩ := List.exists_cons_of_ne_nil h.ne_nil
  have hspan := spanHex_append h.hex h.length_le hrest
  rw [← h.value]
  subst hdigits
  unfold readEscape
  rw [hspan]

/-- Where a name does not go on, nothing is read of it. -/
theorem readName_of_stop (h : continuesName text = false) : readName text = ([], text) := by
  cases text with
  | nil => rw [readName]
  | cons c text =>
    rw [continuesName, Bool.or_eq_false_iff] at h
    obtain ⟨hc, hescape⟩ := h
    rw [readName, if_neg (by simpa using hc), if_neg (by simpa using hescape)]

/-- An escape in a name gives the character that it names, and the name goes on behind it. -/
theorem readName_escape (h : c ≠ '\n') (text : List Char) :
    readName ('\\' :: c :: text) =
      ((readEscape (c :: text)).1 :: (readName (readEscape (c :: text)).2).1,
        (readName (readEscape (c :: text)).2).2) := by
  have hescape : startsEscape ('\\' :: c :: text) = true := by
    rw [startsEscape_cons]
    simpa using h
  rw [readName, if_neg (by decide), if_pos hescape]

/-- A code does not start with a line end. -/
theorem IsCode.head_ne (h : IsCode digits c) : ∃ d more, digits = d :: more ∧ d ≠ '\n' := by
  obtain ⟨d, more, rfl⟩ := List.exists_cons_of_ne_nil h.ne_nil
  refine ⟨d, more, rfl, ?_⟩
  rintro rfl
  exact absurd (h.hex _ (.head _)) (by decide)

/-- Where a name does not go on, no hexadecimal digit follows. -/
theorem isHexDigit_of_stop (h : continuesName rest = false) :
    ∀ d ∈ rest.head?, isHexDigit d = false := by
  intro d hd
  rw [continuesName, Bool.or_eq_false_iff, Option.mem_def.1 hd] at h
  by_contra hhex
  rw [Bool.not_eq_false] at hhex
  rw [Option.any_some, isNameChar_of_isHexDigit hhex] at h
  exact absurd h.1 (by decide)

/-- Where no white space follows, none is skipped. -/
theorem skipOneSpace_of_stop (h : ∀ d ∈ rest.head?, isSpace d = false) : skipOneSpace rest = rest := by
  cases rest with
  | nil => rfl
  | cons d rest => simp [skipOneSpace, h d rfl]

/-- A spelled name is read back, up to where no name goes on. -/
theorem Spells.readName (h : Spells short text name) (hstop : continuesName rest = false)
    (hspace : short = true → ∀ d ∈ rest.head?, isSpace d = false) :
    readName (text ++ rest) = (name, rest) := by
  induction h with
  | nil => exact readName_of_stop hstop
  | char hc _ ih => rw [List.cons_append, Css.readName, if_pos hc, ih hspace]
  | @escape _ c text name hc hcode _ ih =>
    have hline : c ≠ '\n' := fun h => hcode (h ▸ .head _)
    rw [List.cons_append, List.cons_append, readName_escape hline, readEscape_char hc, ih hspace]
  | @code _ c digits text name hdigits _ ih =>
    obtain ⟨d, more, hd, hline⟩ := hdigits.head_ne
    have hescape := @readEscape_code digits (' ' :: (text ++ rest)) c hdigits (by simp; decide)
    rw [hd, List.cons_append] at hescape
    rw [List.cons_append, List.append_assoc, hd, List.cons_append, List.cons_append,
      readName_escape hline, hescape]
    have hskip : skipOneSpace (' ' :: (text ++ rest)) = text ++ rest := rfl
    rw [hskip, ih hspace]
  | @lastCode c digits hdigits =>
    obtain ⟨d, more, hd, hline⟩ := hdigits.head_ne
    have hescape := @readEscape_code digits rest c hdigits (isHexDigit_of_stop hstop)
    rw [skipOneSpace_of_stop (hspace rfl), hd, List.cons_append] at hescape
    rw [List.cons_append, hd, List.cons_append, readName_escape hline, hescape, readName_of_stop hstop]

end

/-! ## What is written spells a name -/

section
variable {short : Bool} {text name : List Char} {c : Char}

/-- Spellings one after the other spell the names one after the other. -/
theorem Spells.append {a b : List Char} {m n : List Char} (ha : Spells false a m)
    (hb : Spells short b n) :
    Spells short (a ++ b) (m ++ n) := by
  generalize hfull : false = full at ha
  induction ha with
  | nil => exact hb
  | char hc _ ih => exact .char hc (ih hfull)
  | escape hc hcode _ ih => exact .escape hc hcode (ih hfull)
  | code hdigits _ ih =>
    rw [List.cons_append, List.append_assoc]
    exact .code hdigits (ih hfull)
  | lastCode _ => cases hfull

/-- A single digit is a code. -/
theorem isCode_singleton {d : Char} (hd : isHexDigit d = true) (hc : escapedChar (hexNumber [d]) = c) :
    IsCode [d] c :=
  ⟨List.cons_ne_nil _ _, by simp, List.forall_mem_singleton.2 hd, hc⟩

/-- The escape of a character that is no digit spells the character. -/
theorem spells_escapeText (hc : isHexDigit c = false) : Spells false (escapeText c) [c] := by
  by_cases hcode : c ∈ codedChars
  · simp only [codedChars, List.mem_cons, List.not_mem_nil, or_false] at hcode
    rcases hcode with rfl | rfl | rfl
    · exact .code (isCode_singleton (d := 'A') rfl rfl) .nil
    · exact .code (isCode_singleton (d := 'D') rfl rfl) .nil
    · exact .code (isCode_singleton (d := 'C') rfl rfl) .nil
  · have hplain : escapeText c = ['\\', c] := by
      simp only [codedChars, List.mem_cons, List.not_mem_nil, or_false, not_or] at hcode
      rw [escapeText, if_neg hcode.1, if_neg hcode.2.1, if_neg hcode.2.2]
    rw [hplain]
    exact .escape hc hcode .nil

/-- A character that no name holds is no hexadecimal digit. -/
theorem isHexDigit_of_not_isNameChar (h : isNameChar c = false) : isHexDigit c = false := by
  by_contra hhex
  rw [Bool.not_eq_false] at hhex
  rw [isNameChar_of_isHexDigit hhex] at h
  cases h

/-- The text that is written for the characters of a name spells them. -/
theorem spells_nameText (name : List Char) : Spells false (nameText name) name := by
  induction name with
  | nil => exact .nil
  | cons c name ih =>
    rw [nameText, List.flatMap_cons, ← nameText]
    refine Spells.append (m := [c]) ?_ ih
    unfold nameCharText
    split
    · next hc => exact .char hc .nil
    · next hc => exact spells_escapeText (isHexDigit_of_not_isNameChar (by simpa using hc))

/-- A digit in front is written as its code. -/
theorem isCode_digit (h : c.isDigit = true) : IsCode (hexUpper 1 c.toNat) c := by
  have hdigits : ∀ n : Fin 10, IsCode (hexUpper 1 (n + 48)) (Char.ofNat (n + 48)) := by
    intro n
    refine ⟨?_, ?_, fun d hd => isHexDigit_of_mem_hexUpper hd, ?_⟩ <;> revert n <;> decide
  rw [isDigit_iff] at h
  have hn := hdigits ⟨c.toNat - 48, by omega⟩
  have hsum : c.toNat - 48 + 48 = c.toNat := by omega
  simp only [hsum, Char.ofNat_toNat] at hn
  exact hn

/-- A character that starts no name and is no digit is no hexadecimal digit. -/
theorem isHexDigit_of_firstChar (hname : startsName c = false) (hdigit : c.isDigit = false) :
    isHexDigit c = false := by
  by_cases hyphen : c = '-'
  · rw [hyphen]
    decide
  · refine isHexDigit_of_not_isNameChar ?_
    simp [isNameChar, hname, hdigit, hyphen]

/-- The text that is written for the first character of a name spells it. -/
theorem spells_firstCharText (c : Char) : Spells false (firstCharText c) [c] := by
  unfold firstCharText
  split
  · next hc => exact .char (isNameChar_of_startsName hc) .nil
  · next hname =>
    split
    · next hc => exact .code (isCode_digit hc) .nil
    · next hdigit =>
      exact spells_escapeText (isHexDigit_of_firstChar (by simpa using hname) (by simpa using hdigit))

/-- The text that is written for an identifier spells it. -/
theorem spells_identifierText (name : List Char) : Spells false (identifierText name) name := by
  unfold identifierText
  split
  · exact .nil
  · exact .escape (by decide) (by decide) .nil
  · exact .char (by decide) (.char (by decide) (spells_nameText _))
  · exact .char (by decide) ((spells_firstCharText _).append (spells_nameText _))
  · exact (spells_firstCharText _).append (spells_nameText _)

/-- The text of an escape starts one. -/
theorem startsEscape_escapeText (c : Char) (rest : List Char) :
    startsEscape (escapeText c ++ rest) = true := by
  unfold escapeText
  split
  · rfl
  · next hline =>
    split
    · rfl
    · split
      · rfl
      · rw [List.cons_append, startsEscape_cons]
        simpa using hline

/-- The first character of an identifier is written so that one starts there. -/
theorem starts_firstCharText (c : Char) (rest : List Char) :
    (∃ more, firstCharText c ++ rest = c :: more ∧ startsName c = true) ∨
      startsEscape (firstCharText c ++ rest) = true := by
  unfold firstCharText
  split
  · next hc => exact .inl ⟨rest, rfl, hc⟩
  · split
    · next hc =>
      obtain ⟨d, more, hd, hline⟩ := (isCode_digit hc).head_ne
      right
      rw [hd, List.cons_append, startsEscape_cons]
      simpa using hline
    · exact .inr (startsEscape_escapeText c rest)

/-- The text of a first character starts an identifier, alone and behind a hyphen. -/
theorem startsIdent_firstCharText (c : Char) (rest : List Char) :
    startsIdent (firstCharText c ++ rest) = true ∧
      startsIdent ('-' :: (firstCharText c ++ rest)) = true := by
  rcases starts_firstCharText c rest with ⟨more, hmore, hc⟩ | hescape
  · rw [hmore, startsIdent_cons, startsIdent_cons, if_pos rfl]
    have hyphen : c ≠ '-' := by
      rintro rfl
      cases hc
    rw [if_neg hyphen]
    simp [hc]
  · obtain ⟨more, hmore⟩ : ∃ more, firstCharText c ++ rest = '\\' :: more := by
      cases htext : firstCharText c ++ rest with
      | nil =>
        rw [htext] at hescape
        cases hescape
      | cons d more =>
        rw [htext] at hescape
        exact ⟨more, by rw [eq_backslash_of_startsEscape hescape]⟩
    rw [startsIdent_cons '-', if_pos rfl, hescape, hmore, startsIdent_cons, ← hmore, hescape]
    simp

/-- A written identifier starts one. -/
theorem startsIdent_identifierText (hname : name ≠ []) (rest : List Char) :
    startsIdent (identifierText name ++ rest) = true := by
  unfold identifierText
  split
  · exact absurd rfl hname
  · rfl
  · rfl
  · rw [List.cons_append, List.append_assoc]
    exact (startsIdent_firstCharText _ _).2
  · rw [List.append_assoc]
    exact (startsIdent_firstCharText _ _).1

end

/-! ## Trimming -/

/-- A name that trimming leaves as it is, wherever it is spelled: its last character is not blank, or it
is written as a code. -/
def isFirmName (name : List Char) : Bool :=
  name.getLast?.all fun c => !isBlank c || codedChars.contains c

section
variable {text name : List Char}

/-- The empty name has the empty spelling only. -/
theorem Spells.eq_nil {short : Bool} (h : Spells short text []) : text = [] := by
  cases h
  rfl

/-- A name character is not among those that are written as codes. -/
theorem not_mem_codedChars {c : Char} (h : isNameChar c = true) : c ∉ codedChars :=
  not_mem_of_refused (by decide) h

/-- A hexadecimal digit is not blank. -/
theorem isBlank_of_isHexDigit {c : Char} (h : isHexDigit c = true) : isBlank c = false := by
  rw [isHexDigit_iff] at h
  simp [isBlank]
  omega

/-- Trimming stops at a character that is not blank, and takes a space off behind it. -/
theorem trimEnd_concat (front : List Char) {c : Char} (h : isBlank c = false) :
    trimEnd isBlank (front ++ [c]) = front ++ [c] ∧
      trimEnd isBlank (front ++ [c, ' ']) = front ++ [c] := by
  have hspace : isBlank ' ' = true := by decide
  simp [trimEnd, h, hspace]

/-- A name that trimming cannot cut has an end that it cannot cut. -/
theorem isFirmName_of_cons {c : Char} (hname : name ≠ []) (h : isFirmName (c :: name) = true) :
    isFirmName name = true := by
  obtain ⟨d, rest, rfl⟩ := List.exists_cons_of_ne_nil hname
  rwa [isFirmName, List.getLast?_cons_cons] at h

/-- The end of a spelling: something that is not blank, and a space after it if that ends a code. -/
theorem Spells.exists_last {short : Bool} (h : Spells short text name) (hfull : short = false)
    (hname : name ≠ []) (hfirm : isFirmName name = true) :
    ∃ front d, isBlank d = false ∧ Spells true (front ++ [d]) name ∧
      (text = front ++ [d] ∨ isHexDigit d = true ∧ text = front ++ [d, ' ']) := by
  induction h with
  | nil => exact absurd rfl hname
  | @char _ c text name hc htext ih =>
    by_cases hnil : name = []
    · subst hnil
      refine ⟨[], c, ?_, .char hc .nil, .inl (by rw [htext.eq_nil]; rfl)⟩
      simpa [isFirmName, not_mem_codedChars hc] using hfirm
    · obtain ⟨front, d, hd, hspells, htext⟩ := ih hfull hnil (isFirmName_of_cons hnil hfirm)
      exact ⟨c :: front, d, hd, .char hc hspells, by simpa using htext⟩
  | @escape _ c text name hc hcode htext ih =>
    by_cases hnil : name = []
    · subst hnil
      refine ⟨['\\'], c, ?_, .escape hc hcode .nil, .inl (by rw [htext.eq_nil]; rfl)⟩
      simpa [isFirmName, hcode] using hfirm
    · obtain ⟨front, d, hd, hspells, htext⟩ := ih hfull hnil (isFirmName_of_cons hnil hfirm)
      exact ⟨'\\' :: c :: front, d, hd, .escape hc hcode hspells, by simpa using htext⟩
  | @code _ c digits text name hdigits htext ih =>
    by_cases hnil : name = []
    · subst hnil
      obtain ⟨front, d, rfl⟩ := (List.eq_nil_or_concat' digits).resolve_left hdigits.ne_nil
      have hd : isHexDigit d = true := hdigits.hex d List.mem_concat_self
      exact ⟨'\\' :: front, d, isBlank_of_isHexDigit hd, .lastCode hdigits,
        .inr ⟨hd, by rw [htext.eq_nil]; simp⟩⟩
    · obtain ⟨front, d, hd, hspells, htext⟩ := ih hfull hnil (isFirmName_of_cons hnil hfirm)
      refine ⟨'\\' :: (digits ++ ' ' :: front), d, hd, ?_, by simpa using htext⟩
      rw [List.cons_append, List.append_assoc, List.cons_append]
      exact .code hdigits hspells
  | lastCode _ => cases hfull

end

end CssTemplate.Css
