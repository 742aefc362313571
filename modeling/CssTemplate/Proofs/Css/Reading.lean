import CssTemplate.Css.Lexer

/-!
# How readers advance

Every reader of the lexer takes something off the front of a text and leaves the end of it. The
rest is a suffix of the text, so whatever holds at all places of the text holds at all places of
the rest. `readToken_suffix` says it of a whole lexeme. Before that, the readers whose definitions
look at two characters at once are given one equation for each thing that they can meet.
-/

namespace CssTemplate.Css

/-! ## One step at a time -/

/-- A backslash starts an escape unless a line end follows it. -/
theorem startsEscape_cons (c : Char) (rest : List Char) :
    startsEscape (c :: rest) = (c == '\\' && rest.head? != some '\n') := by
  by_cases hc : c = '\\'
  · subst hc
    cases rest with
    | nil => rfl
    | cons d rest =>
      by_cases hd : d = '\n'
      · subst hd; rfl
      · simp [startsEscape, hd]
  · simp [startsEscape, hc]

/-- An escape starts with a backslash. -/
theorem eq_backslash_of_startsEscape {c : Char} {rest : List Char}
    (h : startsEscape (c :: rest) = true) : c = '\\' := by
  rw [startsEscape_cons, Bool.and_eq_true, beq_iff_eq] at h
  exact h.1

/-- Whether an identifier starts here, by the first character: after a hyphen the next one decides. -/
theorem startsIdent_cons (c : Char) (rest : List Char) :
    startsIdent (c :: rest) =
      if c = '-' then rest.head?.any (fun d => startsName d || d == '-') || startsEscape rest
      else startsName c || startsEscape (c :: rest) := by
  by_cases hc : c = '-'
  · subst hc
    cases rest with
    | nil => rfl
    | cons d rest => simp [startsIdent]
  · simp [startsIdent, hc]

/-- Preprocessing keeps a character that is neither a line end to be rewritten nor a null. -/
theorem normalize_cons {c : Char} (hc : c ∉ ['\r', '\x0c', '\x00']) (rest : List Char) :
    normalize (c :: rest) = c :: normalize rest := by
  simp only [List.mem_cons, List.not_mem_nil, or_false, not_or] at hc
  obtain ⟨hreturn, hfeed, hnull⟩ := hc
  have hnull : c.toNat ≠ 0 := fun h => hnull (Char.toNat_inj.1 h)
  rw [normalize]
  · simp [hreturn, hfeed, hnull]
  · exact fun _ heq => absurd heq hreturn

/-- A text in which nothing changes when line ends are normalized. -/
def IsNormal (text : List Char) : Prop :=
  ∀ c ∈ text, c ∉ ['\r', '\x0c', '\x00']

/-- Nothing changes in a normal text. -/
theorem IsNormal.normalize {text : List Char} (h : IsNormal text) : normalize text = text := by
  induction text with
  | nil => rfl
  | cons c text ih =>
    obtain ⟨hc, htext⟩ := List.forall_mem_cons.1 h
    rw [normalize_cons hc, ih htext]

/-- Normal texts one after the other are normal. -/
theorem IsNormal.append {a b : List Char} (ha : IsNormal a) (hb : IsNormal b) : IsNormal (a ++ b) :=
  List.forall_mem_append.2 ⟨ha, hb⟩

/-- A character in front of a normal text, if nothing changes in it either. -/
theorem IsNormal.cons {c : Char} {text : List Char} (hc : c ∉ ['\r', '\x0c', '\x00'])
    (h : IsNormal text) : IsNormal (c :: text) :=
  List.forall_mem_cons.2 ⟨hc, h⟩

/-- The empty text is normal. -/
theorem isNormal_nil : IsNormal [] :=
  List.forall_mem_nil _

/-- Normalizing keeps characters or puts line ends and replacements in their place. -/
theorem mem_of_mem_normalize {text : List Char} {c : Char} (h : c ∈ normalize text) :
    (c ∈ text ∧ c ≠ '\r' ∧ c ≠ '\x0c') ∨ c = '\n' ∨ c = replacement := by
  fun_induction normalize text with
  | case1 => cases h
  | case2 rest ih =>
    rcases List.mem_cons.1 h with rfl | h
    · exact .inr (.inl rfl)
    · exact (ih h).imp_left fun ⟨hmem, hne⟩ => ⟨.tail _ (.tail _ hmem), hne⟩
  | case3 d rest hcr ih =>
    rcases List.mem_cons.1 h with rfl | h
    · split
      · exact .inr (.inl rfl)
      · next hline =>
        split
        · exact .inr (.inr rfl)
        · simp only [Bool.or_eq_true, decide_eq_true_eq, not_or] at hline
          exact .inl ⟨.head _, hline⟩
    · exact (ih h).imp_left fun ⟨hmem, hne⟩ => ⟨.tail _ hmem, hne⟩

section Strings

variable {quote : Char}

/-- The quote that opened a string closes it. -/
theorem readString_quote (rest : List Char) :
    readString quote (quote :: rest) = ⟨[], .closed, rest⟩ := by
  rw [readString.eq_def]
  exact if_pos rfl

variable (hquote : quote ≠ '\\')

include hquote

/-- A backslash at the end of the text ends the string there. -/
theorem readString_backslash : readString quote ['\\'] = ⟨[], .endOfInput, []⟩ := by
  rw [readString, if_neg hquote.symm, if_pos rfl]

/-- A backslash before a line end joins two lines of a string. -/
theorem readString_joined (rest : List Char) :
    readString quote ('\\' :: '\n' :: rest) = readString quote rest := by
  rw [readString, if_neg hquote.symm, if_pos rfl]

/-- An escape in a string gives the character that it names. -/
theorem readString_escape {c : Char} (rest : List Char) (hc : c ≠ '\n') :
    readString quote ('\\' :: c :: rest) =
      (readString quote (readEscape (c :: rest)).2).cons (readEscape (c :: rest)).1 := by
  rw [readString, if_neg hquote.symm, if_pos rfl]
  exact hc

omit hquote

/-- A line end without a backslash breaks a string off and is left in the rest. -/
theorem readString_lineEnd (rest : List Char) (hline : quote ≠ '\n') :
    readString quote ('\n' :: rest) = ⟨[], .bad, '\n' :: rest⟩ := by
  rw [readString.eq_def]
  simp only [if_neg hline.symm]
  rfl

/-- Any other character of a string stands for itself. -/
theorem readString_cons {c : Char} (rest : List Char) (hq : c ≠ quote) (hb : c ≠ '\\')
    (hl : c ≠ '\n') : readString quote (c :: rest) = (readString quote rest).cons c := by
  rw [readString.eq_def]
  simp only [if_neg hq, if_neg hb, if_neg hl]

end Strings

/-- A mantissa whose digits a point follows: with a fraction, if a digit follows the point. -/
theorem readMantissa?_of_point {text rest : List Char} (h : afterDigits text = '.' :: rest) :
    readMantissa? text =
      if (digits rest).isEmpty then
        if (digits text).isEmpty then none else some (digits text, afterDigits text)
      else some (digits text ++ '.' :: digits rest, afterDigits rest) := by
  unfold readMantissa?
  simp only [h]

/-- A mantissa whose digits no point follows. -/
theorem readMantissa?_of_no_point {text : List Char} (h : (afterDigits text).head? ≠ some '.') :
    readMantissa? text =
      if (digits text).isEmpty then none else some (digits text, afterDigits text) := by
  unfold readMantissa?
  simp only
  split
  · next hrest => exact absurd (by rw [hrest]; rfl) h
  · rfl

/-- A name that an opening bracket follows: an unquoted URL or a function. -/
theorem lexIdent_of_open {text rest : List Char} (h : (readName text).2 = '(' :: rest) :
    lexIdent text =
      if isUrlName (readName text).1 && !startsQuoted rest then lexUrl rest
      else ([.opening (.function (readName text).1)], rest) := by
  unfold lexIdent
  simp only [h]

/-- A name that no opening bracket follows. -/
theorem lexIdent_of_no_open {text : List Char} (h : (readName text).2.head? ≠ some '(') :
    lexIdent text = lexAtom (.ident (readName text).1) (readName text).2 := by
  unfold lexIdent
  simp only
  split
  · next hrest => exact absurd (by rw [hrest]; rfl) h
  · rfl

/-- A numeral with an identifier behind it is a dimension. -/
theorem lexNumeric_of_unit {numeral rest : List Char} (h : startsIdent rest = true) :
    lexNumeric numeral rest =
      lexAtom (.dimension numeral (readName rest).1) (readName rest).2 := by
  unfold lexNumeric
  exact if_pos h

/-- A numeral with a percent sign behind it is a percentage. -/
theorem lexNumeric_percent (numeral rest : List Char) :
    lexNumeric numeral ('%' :: rest) = lexAtom (.percentage numeral) rest := by
  have hident : startsIdent ('%' :: rest) = false := rfl
  unfold lexNumeric
  rw [hident, if_neg Bool.false_ne_true]
  rfl

/-- A numeral with neither a unit nor a percent sign behind it is a number. -/
theorem lexNumeric_of_plain {numeral rest : List Char} (hunit : startsIdent rest = false)
    (hpercent : rest.head? ≠ some '%') : lexNumeric numeral rest = lexAtom (.number numeral) rest := by
  unfold lexNumeric
  rw [hunit, if_neg Bool.false_ne_true]
  split
  · exact absurd rfl hpercent
  · rfl

/-- An operator takes an equals sign that follows it. -/
theorem lexOperator_equals (c : Char) (rest : List Char) :
    lexOperator c ('=' :: rest) = lexLiteral [c, '='] rest := rfl

/-- Without an equals sign an operator is a literal of one character. -/
theorem lexOperator_of_no_equals {c : Char} {rest : List Char} (h : rest.head? ≠ some '=') :
    lexOperator c rest = lexLiteral [c] rest := by
  unfold lexOperator
  split
  · exact absurd rfl h
  · rfl

section Tokens

variable {c : Char} {rest : List Char}

/-- White space is read as one run. -/
theorem readToken_space (h : isSpace c = true) :
    readToken c rest =
      lexAtom (.space (c :: rest.takeWhile isSpace)) (rest.dropWhile isSpace) := by
  unfold readToken
  exact if_pos h

/-- The start of a Unicode range takes precedence over a name. -/
theorem readToken_range (hspace : isSpace c = false) (h : startsUnicodeRange (c :: rest) = true) :
    readToken c rest =
      lexAtom (readUnicodeRange (rest.drop 1)).1 (readUnicodeRange (rest.drop 1)).2 := by
  unfold readToken
  rw [hspace, if_neg Bool.false_ne_true, if_pos h]

/-- The closing comment mark of HTML is one literal. -/
theorem readToken_mark (after : List Char) :
    readToken '-' ('-' :: '>' :: after) = lexLiteral ['-', '-', '>'] after := rfl

/-- Neither white space, a Unicode range nor the mark `-->` starts here. -/
def StartsWord (c : Char) (rest : List Char) : Prop :=
  isSpace c = false ∧ startsUnicodeRange (c :: rest) = false ∧
    ∀ after, c = '-' → rest ≠ '-' :: '>' :: after

/-- What does not start like white space, a Unicode range or a mark is read by trying an
identifier, a number and a symbol in this order. -/
theorem readToken_word (h : StartsWord c rest) :
    readToken c rest =
      if startsIdent (c :: rest) then lexIdent (c :: rest)
      else
        match readNumber? (c :: rest) with
        | some (numeral, after) => lexNumeric numeral after
        | none => lexSymbol c rest := by
  obtain ⟨hspace, hrange, hmark⟩ := h
  unfold readToken
  rw [hspace, hrange, if_neg Bool.false_ne_true, if_neg Bool.false_ne_true]
  split
  · next after => exact absurd rfl (hmark after rfl)
  · rfl

/-- The lexeme at the front of a text: white space, a Unicode range, a mark, an identifier, a
number or a symbol. -/
theorem readToken_cases (c : Char) (rest : List Char) :
    isSpace c = true ∨
    (isSpace c = false ∧ startsUnicodeRange (c :: rest) = true) ∨
    (c = '-' ∧ ∃ after, rest = '-' :: '>' :: after) ∨
    StartsWord c rest := by
  cases hspace : isSpace c with
  | true => exact .inl rfl
  | false =>
    cases hrange : startsUnicodeRange (c :: rest) with
    | true => exact .inr (.inl ⟨rfl, rfl⟩)
    | false =>
      by_cases hmark : c = '-' ∧ ∃ after, rest = '-' :: '>' :: after
      · exact .inr (.inr (.inl hmark))
      · exact .inr (.inr (.inr ⟨hspace, hrange, fun after hc hrest => hmark ⟨hc, after, hrest⟩⟩))

end Tokens

/-! ## Names -/

/-- What follows a run of hexadecimal digits is a suffix of the text. -/
theorem spanHex_suffix (limit : Nat) (text : List Char) : (spanHex limit text).2 <:+ text := by
  fun_induction spanHex limit text with
  | case1 text => exact List.suffix_rfl
  | case2 => exact List.suffix_rfl
  | case3 limit c rest _ _ ih => exact ih.trans (List.suffix_cons c rest)
  | case4 => exact List.suffix_rfl

/-- What is left after one white space has been skipped is a suffix of the text. -/
theorem skipOneSpace_suffix (text : List Char) : skipOneSpace text <:+ text := by
  cases text with
  | nil => exact List.suffix_rfl
  | cons c rest =>
    rw [skipOneSpace]
    split
    · exact List.suffix_cons c rest
    · exact List.suffix_rfl

/-- What follows an escape is a suffix of the text. -/
theorem readEscape_suffix (text : List Char) : (readEscape text).2 <:+ text := by
  unfold readEscape
  split
  · split
    · exact List.suffix_rfl
    · exact List.suffix_cons _ _
  · next digits rest _ h =>
    have hrest : rest <:+ text := by
      have := spanHex_suffix 6 text
      rwa [h] at this
    exact (skipOneSpace_suffix rest).trans hrest

/-- What follows a name is a suffix of the text. -/
theorem readName_suffix (text : List Char) : (readName text).2 <:+ text := by
  fun_induction readName text with
  | case1 => exact List.suffix_rfl
  | case2 c rest _ _ ih => exact ih.trans (List.suffix_cons c rest)
  | case3 c rest _ _ _ _ ih =>
    exact (ih.trans (readEscape_suffix rest)).trans (List.suffix_cons c rest)
  | case4 => exact List.suffix_rfl

/-! ## Strings and URLs -/

/-- What follows a string is a suffix of the text. -/
theorem readString_suffix (quote : Char) (text : List Char) :
    (readString quote text).rest <:+ text := by
  fun_induction readString quote text with
  | case1 => exact List.suffix_rfl
  | case2 rest => exact List.suffix_cons _ rest
  | case3 => exact List.nil_suffix
  | case4 after _ ih =>
    exact (ih.trans (List.suffix_cons _ after)).trans (List.suffix_cons _ _)
  | case5 d after _ _ escape ih =>
    exact (ih.trans (readEscape_suffix (d :: after))).trans (List.suffix_cons _ _)
  | case6 => exact List.suffix_rfl
  | case7 c rest _ _ _ ih => exact ih.trans (List.suffix_cons c rest)

/-- What follows a broken URL is a suffix of the text. -/
theorem afterBadUrl_suffix (text : List Char) : afterBadUrl text <:+ text := by
  fun_induction afterBadUrl text with
  | case1 => exact List.suffix_rfl
  | case2 rest ih => exact (ih.trans (List.suffix_cons _ rest)).trans (List.suffix_cons _ _)
  | case3 rest => exact List.suffix_cons _ rest
  | case4 c rest _ _ ih => exact ih.trans (List.suffix_cons c rest)

/-- What is left at the white space after a URL is a suffix of the text. -/
theorem finishUrl_suffix (text : List Char) : (finishUrl text).rest <:+ text := by
  have hd := List.dropWhile_suffix (l := text) isSpace
  unfold finishUrl
  split
  · exact List.nil_suffix
  · next rest h =>
    rw [h] at hd
    exact (List.suffix_cons _ rest).trans hd
  · exact (afterBadUrl_suffix _).trans hd

/-- What follows the characters of a URL is a suffix of the text. -/
theorem readUrlBody_suffix (text : List Char) : (readUrlBody text).rest <:+ text := by
  fun_induction readUrlBody text with
  | case1 => exact List.suffix_rfl
  | case2 rest => exact List.suffix_cons _ rest
  | case3 c rest => exact (finishUrl_suffix rest).trans (List.suffix_cons c rest)
  | case4 c rest _ _ _ escape ih =>
    exact (ih.trans (readEscape_suffix rest)).trans (List.suffix_cons c rest)
  | case5 c rest => exact (afterBadUrl_suffix rest).trans (List.suffix_cons c rest)
  | case6 c rest _ _ _ _ ih => exact ih.trans (List.suffix_cons c rest)

/-- What follows an unquoted URL is a suffix of the text. -/
theorem readUrl_suffix (text : List Char) : (readUrl text).rest <:+ text :=
  (readUrlBody_suffix _).trans (List.dropWhile_suffix _)

/-! ## Numbers -/

/-- What follows a sign is a suffix of the text. -/
theorem readSign_suffix (text : List Char) : (readSign text).2 <:+ text := by
  unfold readSign
  split
  · next rest => exact List.suffix_cons _ rest
  · next rest => exact List.suffix_cons _ rest
  · exact List.suffix_rfl

/-- What follows a mantissa is a suffix of the text. -/
theorem readMantissa?_suffix {text mantissa rest : List Char}
    (h : readMantissa? text = some (mantissa, rest)) : rest <:+ text := by
  have hdigits : afterDigits text <:+ text := List.dropWhile_suffix _
  have plain : ∀ {m r : List Char},
      (if (digits text).isEmpty then none else some (digits text, afterDigits text)) = some (m, r) →
      r <:+ text := by
    intro m r hm
    split at hm
    · cases hm
    · cases hm; exact hdigits
  unfold readMantissa? at h
  simp only at h
  split at h
  · next after hp =>
    split at h
    · exact plain h
    · cases h
      rw [hp] at hdigits
      exact ((List.dropWhile_suffix _).trans (List.suffix_cons _ after)).trans hdigits
  · exact plain h

/-- What follows an exponent is a suffix of the text. -/
theorem readExponent_suffix (text : List Char) : (readExponent text).2 <:+ text := by
  unfold readExponent
  split
  · exact List.suffix_rfl
  · next e rest =>
    simp only
    split
    · split
      · exact List.suffix_rfl
      · exact ((List.dropWhile_suffix _).trans (readSign_suffix rest)).trans (List.suffix_cons e rest)
    · exact List.suffix_rfl

/-- What follows a numeral is a suffix of the text. -/
theorem readNumber?_suffix {text numeral rest : List Char}
    (h : readNumber? text = some (numeral, rest)) : rest <:+ text := by
  unfold readNumber? at h
  split at h
  · cases h
  · next mantissa after hm =>
    cases h
    exact ((readExponent_suffix after).trans (readMantissa?_suffix hm)).trans (readSign_suffix text)

/-! ## Unicode ranges -/

/-- What follows a run of question marks is a suffix of the text. -/
theorem spanQuestionMarks_suffix (limit : Nat) (text : List Char) :
    (spanQuestionMarks limit text).2 <:+ text := by
  fun_induction spanQuestionMarks limit text with
  | case1 limit rest _ ih => exact ih.trans (List.suffix_cons _ rest)
  | case2 => exact List.suffix_rfl

/-- What follows a Unicode range is a suffix of the text. -/
theorem readUnicodeRange_suffix (text : List Char) : (readUnicodeRange text).2 <:+ text := by
  have hfirst := spanHex_suffix 6 text
  have hmarks := spanQuestionMarks_suffix (6 - (spanHex 6 text).1.length) (spanHex 6 text).2
  unfold readUnicodeRange
  simp only
  split
  · exact hmarks.trans hfirst
  · split
    · next c rest h =>
      split
      · rw [h] at hfirst
        exact ((spanHex_suffix 6 (c :: rest)).trans (List.suffix_cons _ _)).trans hfirst
      · exact hfirst
    · exact hfirst

/-! ## Lexemes -/

/-- The lexeme of a URL leaves a suffix of the text. -/
theorem lexUrl_suffix (text : List Char) : (lexUrl text).2 <:+ text := by
  have h := readUrl_suffix text
  unfold lexUrl
  simp only
  split <;> exact h

/-- The lexeme of a string leaves a suffix of the text. -/
theorem lexString_suffix (quote : Char) (text : List Char) :
    (lexString quote text).2 <:+ text := by
  have h := readString_suffix quote text
  unfold lexString
  simp only
  split <;> exact h

/-- The lexeme that an identifier starts leaves a suffix of the text. -/
theorem lexIdent_suffix (text : List Char) : (lexIdent text).2 <:+ text := by
  have hname := readName_suffix text
  unfold lexIdent
  simp only
  split
  · next after ha =>
    rw [ha] at hname
    have hafter := (List.suffix_cons _ after).trans hname
    split
    · exact (lexUrl_suffix after).trans hafter
    · exact hafter
  · exact hname

/-- The lexeme of a numeral leaves a suffix of what follows the numeral. -/
theorem lexNumeric_suffix (numeral rest : List Char) : (lexNumeric numeral rest).2 <:+ rest := by
  unfold lexNumeric
  split
  · exact readName_suffix rest
  · split
    · exact List.suffix_cons _ _
    · exact List.suffix_rfl

/-- What follows a comment is a suffix of the text. -/
theorem afterComment_suffix (text : List Char) : afterComment text <:+ text := by
  fun_induction afterComment text with
  | case1 => exact List.suffix_rfl
  | case2 rest => exact (List.suffix_cons _ rest).trans (List.suffix_cons _ _)
  | case3 c rest _ ih => exact ih.trans (List.suffix_cons c rest)

/-- The lexeme of an operator leaves a suffix of what follows its first character. -/
theorem lexOperator_suffix (c : Char) (rest : List Char) : (lexOperator c rest).2 <:+ rest := by
  unfold lexOperator
  split
  · next after => exact List.suffix_cons _ after
  · exact List.suffix_rfl

/-- The lexeme of any other character leaves a suffix of what follows it. -/
theorem lexSymbol_suffix (c : Char) (rest : List Char) : (lexSymbol c rest).2 <:+ rest := by
  have hname := readName_suffix rest
  have hself : rest <:+ rest := List.suffix_rfl
  unfold lexSymbol
  split
  · split
    · exact hname
    · exact hself
  · split
    · exact hname
    · exact hself
  · exact hself
  · exact hself
  · exact hself
  · exact hself
  · exact hself
  · exact hself
  · exact lexString_suffix _ _
  · exact lexString_suffix _ _
  · split
    · next after => exact (afterComment_suffix after).trans (List.suffix_cons _ after)
    · exact hself
  · split
    · next after =>
      exact ((List.suffix_cons _ after).trans (List.suffix_cons _ _)).trans (List.suffix_cons _ _)
    · exact hself
  · split
    · next after => exact List.suffix_cons _ after
    · exact lexOperator_suffix _ _
  · exact lexOperator_suffix _ _
  · exact lexOperator_suffix _ _
  · exact lexOperator_suffix _ _
  · exact lexOperator_suffix _ _
  · exact hself

/-- A lexeme leaves a suffix of what follows its first character. -/
theorem readToken_suffix (c : Char) (rest : List Char) :
    (readToken c rest).2 <:+ rest := by
  have shorter : ∀ {text : List Char}, text <:+ c :: rest → text.length ≤ rest.length →
      text <:+ rest := by
    intro text hsuffix hlength
    rcases List.suffix_cons_iff.1 hsuffix with rfl | h
    · simp only [List.length_cons] at hlength; omega
    · exact h
  refine shorter ?_ (length_readToken_le c rest)
  have hcons := List.suffix_cons c rest
  unfold readToken
  split
  · exact (List.dropWhile_suffix _).trans hcons
  · split
    · exact ((readUnicodeRange_suffix _).trans (List.drop_suffix 1 rest)).trans hcons
    · split
      · exact ((List.suffix_cons _ _).trans (List.suffix_cons _ _)).trans hcons
      · split
        · exact lexIdent_suffix _
        · split
          · next numeral after h =>
            exact (lexNumeric_suffix numeral after).trans (readNumber?_suffix h)
          · exact (lexSymbol_suffix c rest).trans hcons

end CssTemplate.Css
