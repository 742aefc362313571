import CssTemplate.Proofs.Css.RecoloredTokens

/-!
# A brace at the end of a text

What happens to the tokens of a text when a closing brace is put after it? Every reader either leaves
the brace in its rest and reads what it read before, or it reads on to the end of both texts: an
escape, a name that ends in one, a string, a URL or a comment that the end of the text breaks off.
What is read on like that is a row of atoms, so `scan_brace` says: the brace becomes one more token,
or else only atoms at the end change.
-/

namespace CssTemplate.Css

/-- What a reader gives on a text, and on the text with a brace after it: the same with the brace in
the rest, or no rest in both. -/
def Grown {α : Type} (short long : α × List Char) : Prop :=
  long = (short.1, short.2 ++ ['}']) ∨ (short.2 = [] ∧ long.2 = [])

/-- A run that a brace ends is the same with a brace after the text. -/
theorem takeWhile_brace {p : Char → Bool} (hp : p '}' = false) (text : List Char) :
    (text ++ ['}']).takeWhile p = text.takeWhile p := by
  induction text with
  | nil => simp [hp]
  | cons c text ih => rw [List.cons_append, List.takeWhile_cons, List.takeWhile_cons, ih]

/-- What follows a run that a brace ends keeps the brace. -/
theorem dropWhile_brace {p : Char → Bool} (hp : p '}' = false) (text : List Char) :
    (text ++ ['}']).dropWhile p = text.dropWhile p ++ ['}'] := by
  induction text with
  | nil => simp [hp]
  | cons c text ih =>
    rw [List.cons_append, List.dropWhile_cons, List.dropWhile_cons, ih]
    split <;> rfl

/-- The first character is another than `a`, also when a brace is put after the text. -/
theorem head?_brace {text : List Char} {a : Char} (ha : a ≠ '}') (h : text.head? ≠ some a) :
    (text ++ ['}']).head? ≠ some a := by
  cases text with
  | nil => simpa using ha.symm
  | cons c text => exact h

/-- Where the text with a brace after it starts with other characters than a brace, the text itself
starts with them. -/
theorem exists_of_append_brace (front : List Char) {rest after : List Char}
    (hfront : '}' ∉ front) (h : rest ++ ['}'] = front ++ after) : ∃ more, rest = front ++ more := by
  induction front generalizing rest with
  | nil => exact ⟨rest, rfl⟩
  | cons a front ih =>
    rw [List.mem_cons, not_or] at hfront
    cases rest with
    | nil => exact absurd (List.cons.inj h).1 hfront.1
    | cons c rest =>
      obtain ⟨rfl, hrest⟩ := List.cons.inj h
      obtain ⟨more, rfl⟩ := ih hfront.2 hrest
      exact ⟨more, rfl⟩

/-- Preprocessing leaves a brace at the end alone. -/
theorem normalize_brace (text : List Char) : normalize (text ++ ['}']) = normalize text ++ ['}'] := by
  fun_induction normalize text with
  | case1 => rfl
  | case2 rest ih =>
    rw [List.cons_append, List.cons_append, normalize, ih]
    rfl
  | case3 c rest hreturn ih =>
    rw [List.cons_append, normalize, ih]
    · rfl
    · intro after hc hafter
      obtain ⟨more, rfl⟩ := exists_of_append_brace ['\n'] (by decide) hafter
      exact hreturn more hc rfl

/-! ## Names -/

/-- Hexadecimal digits do not see a brace after the text. -/
theorem spanHex_brace (limit : Nat) (text : List Char) :
    spanHex limit (text ++ ['}']) =
      ((spanHex limit text).1, (spanHex limit text).2 ++ ['}']) := by
  fun_induction spanHex limit text with
  | case1 text => rw [spanHex]
  | case2 limit => rfl
  | case3 limit c rest hc more ih => rw [List.cons_append, spanHex, if_pos hc, ih]
  | case4 limit c rest hc => rw [List.cons_append, spanHex, if_neg hc]

/-- Skipping one white space does not see a brace after the text. -/
theorem skipOneSpace_brace (text : List Char) :
    skipOneSpace (text ++ ['}']) = skipOneSpace text ++ ['}'] := by
  cases text with
  | nil => rfl
  | cons c text =>
    rw [List.cons_append, skipOneSpace, skipOneSpace]
    split <;> rfl

/-- An escape that has a character to read does not see a brace after the text. -/
theorem readEscape_brace (c : Char) (rest : List Char) :
    readEscape (c :: rest ++ ['}']) =
      ((readEscape (c :: rest)).1, (readEscape (c :: rest)).2 ++ ['}']) := by
  unfold readEscape
  rw [spanHex_brace]
  rcases spanHex 6 (c :: rest) with ⟨_ | ⟨digit, digits⟩, after⟩
  · rfl
  · simp only [skipOneSpace_brace]

/-- Whether an escape starts here does not depend on a brace after the text. -/
theorem startsEscape_brace (text : List Char) :
    startsEscape (text ++ ['}']) = startsEscape text := by
  cases text with
  | nil => rfl
  | cons c rest =>
    rw [List.cons_append, startsEscape_cons, startsEscape_cons]
    cases rest with
    | nil => rfl
    | cons d rest => rfl

/-- Whether an identifier starts here does not depend on a brace after the text. -/
theorem startsIdent_brace (text : List Char) : startsIdent (text ++ ['}']) = startsIdent text := by
  cases text with
  | nil => rfl
  | cons c rest =>
    have hself := startsEscape_brace (c :: rest)
    rw [List.cons_append] at hself
    rw [List.cons_append, startsIdent_cons, startsIdent_cons, startsEscape_brace, hself]
    cases rest with
    | nil => rfl
    | cons d rest => rfl

/-- A name leaves the brace, or an escape at its end reads on to the end. -/
theorem readName_brace (text : List Char) : Grown (readName text) (readName (text ++ ['}'])) := by
  fun_induction readName text with
  | case1 => exact .inl (by rw [List.nil_append, readName]; rfl)
  | case2 c rest hc more ih =>
    rw [List.cons_append, readName, if_pos hc]
    rcases ih with h | ⟨hshort, hlong⟩
    · exact .inl (by rw [h])
    · exact .inr ⟨hshort, hlong⟩
  | case3 c rest hc hescape escape more ih =>
    rw [← startsEscape_brace] at hescape
    rw [List.cons_append] at hescape ⊢
    rw [readName, if_neg hc, if_pos hescape]
    cases rest with
    | nil =>
      have hend : (readName []).2 = [] := by rw [readName]
      exact .inr ⟨hend, hend⟩
    | cons d rest =>
      rw [readEscape_brace]
      rcases ih with h | ⟨hshort, hlong⟩
      · exact .inl (congrArg (fun name => (escape.1 :: name.1, name.2)) h)
      · exact .inr ⟨hshort, hlong⟩
  | case4 c rest hc hescape =>
    rw [← startsEscape_brace] at hescape
    rw [List.cons_append] at hescape ⊢
    rw [readName, if_neg hc, if_neg hescape]
    exact .inl rfl

/-! ## Strings and URLs -/

/-- What is read of a delimited value with and without a brace after the text. -/
def Reading.Grown (short long : Reading) : Prop :=
  long = { short with rest := short.rest ++ ['}'] } ∨ (short.rest = [] ∧ long.rest = [])

/-- One more character in front of both readings changes nothing. -/
theorem Reading.Grown.cons {short long : Reading} (h : short.Grown long) (c : Char) :
    (short.cons c).Grown (long.cons c) := by
  rcases h with rfl | h
  · exact .inl rfl
  · exact .inr h

/-- A string leaves the brace behind it, or the end of the text breaks it off. -/
theorem readString_brace {quote : Char} (hquote : quote = '"' ∨ quote = '\'') (text : List Char) :
    (readString quote text).Grown (readString quote (text ++ ['}'])) := by
  have hbackslash : quote ≠ '\\' := by rcases hquote with rfl | rfl <;> decide
  have hbrace : '}' ≠ quote := by rcases hquote with rfl | rfl <;> decide
  fun_induction readString quote text with
  | case1 =>
    rw [List.nil_append, readString_cons _ hbrace (by decide) (by decide), readString]
    exact .inr ⟨rfl, rfl⟩
  | case2 rest =>
    rw [List.cons_append, readString_quote]
    exact .inl rfl
  | case3 h =>
    rw [List.cons_append, List.nil_append, readString_escape hbackslash _ (by decide)]
    have hescape : readEscape ['}'] = ('}', []) := by decide
    rw [hescape, readString]
    exact .inr ⟨rfl, rfl⟩
  | case4 after h ih =>
    rw [List.cons_append, List.cons_append, readString_joined hbackslash]
    exact ih
  | case5 d after hd h escape ih =>
    rw [List.cons_append, List.cons_append, readString_escape hbackslash _ hd, ← List.cons_append,
      readEscape_brace]
    exact ih.cons _
  | case6 rest h h' =>
    rw [List.cons_append, readString_lineEnd _ (Ne.symm h)]
    exact .inl rfl
  | case7 c rest h h' h'' ih =>
    rw [List.cons_append, readString_cons _ h h' h'']
    exact ih.cons _

/-- A broken URL leaves the brace behind it, or goes on to the end. -/
theorem afterBadUrl_brace (text : List Char) :
    afterBadUrl (text ++ ['}']) = afterBadUrl text ++ ['}'] ∨
      (afterBadUrl text = [] ∧ afterBadUrl (text ++ ['}']) = []) := by
  fun_induction afterBadUrl text with
  | case1 => exact .inr ⟨rfl, by decide⟩
  | case2 rest ih => exact ih
  | case3 rest => exact .inl rfl
  | case4 c rest hescape hclose ih =>
    rw [List.cons_append, afterBadUrl]
    · exact ih
    · intro after hc hafter
      obtain ⟨more, rfl⟩ := exists_of_append_brace [')'] (by decide) hafter
      exact hescape more hc rfl
    · exact hclose

/-- The white space after a URL leaves the brace behind it, or goes on to the end. -/
theorem finishUrl_brace (text : List Char) : (finishUrl text).Grown (finishUrl (text ++ ['}'])) := by
  unfold finishUrl
  rw [dropWhile_brace rfl]
  cases text.dropWhile isSpace with
  | nil => exact .inr ⟨rfl, rfl⟩
  | cons c rest =>
    by_cases hc : c = ')'
    · subst hc
      exact .inl rfl
    · rw [List.cons_append]
      split
      · next heq => cases heq
      · next heq => exact absurd (List.cons.inj heq).1 hc
      · split
        · next heq => cases heq
        · next heq => exact absurd (List.cons.inj heq).1 hc
        · rcases afterBadUrl_brace (c :: rest) with h | ⟨hshort, hlong⟩
          · exact .inl (congrArg (Reading.mk [] .bad) h)
          · exact .inr ⟨hshort, hlong⟩

/-- The characters of a URL leave the brace behind it, or go on to the end. -/
theorem readUrlBody_brace (text : List Char) :
    (readUrlBody text).Grown (readUrlBody (text ++ ['}'])) := by
  fun_induction readUrlBody text with
  | case1 => exact .inr ⟨rfl, by simp [readUrlBody, isSpace, startsEscape, isUrlForbidden, Reading.cons]⟩
  | case2 rest =>
    rw [List.cons_append, readUrlBody, if_pos rfl]
    exact .inl rfl
  | case3 c rest hc hspace =>
    rw [List.cons_append, readUrlBody, if_neg hc, if_pos hspace]
    exact finishUrl_brace rest
  | case4 c rest hc hspace hescape escape ih =>
    rw [← startsEscape_brace] at hescape
    rw [List.cons_append] at hescape ⊢
    rw [readUrlBody, if_neg hc, if_neg hspace, if_pos hescape]
    cases rest with
    | nil =>
      have hend : (readUrlBody []).rest = [] := by rw [readUrlBody]
      exact .inr ⟨hend, hend⟩
    | cons d rest =>
      rw [readEscape_brace]
      exact ih.cons _
  | case5 c rest hc hspace hescape hforbidden =>
    rw [← startsEscape_brace] at hescape
    rw [List.cons_append] at hescape ⊢
    rw [readUrlBody, if_neg hc, if_neg hspace, if_neg hescape, if_pos hforbidden]
    rcases afterBadUrl_brace rest with h | ⟨hshort, hlong⟩
    · exact .inl (congrArg (Reading.mk [] .bad) h)
    · exact .inr ⟨hshort, hlong⟩
  | case6 c rest hc hspace hescape hforbidden ih =>
    rw [← startsEscape_brace] at hescape
    rw [List.cons_append] at hescape ⊢
    rw [readUrlBody, if_neg hc, if_neg hspace, if_neg hescape, if_neg hforbidden]
    exact ih.cons _

/-- An unquoted URL leaves the brace behind it, or goes on to the end. -/
theorem readUrl_brace (text : List Char) : (readUrl text).Grown (readUrl (text ++ ['}'])) := by
  rw [readUrl, readUrl, dropWhile_brace rfl]
  exact readUrlBody_brace _

/-! ## Numbers and Unicode ranges -/

/-- A brace after the text is no digit. -/
theorem digits_brace (text : List Char) : digits (text ++ ['}']) = digits text :=
  takeWhile_brace rfl text

/-- What follows digits keeps the brace. -/
theorem afterDigits_brace (text : List Char) : afterDigits (text ++ ['}']) = afterDigits text ++ ['}'] :=
  dropWhile_brace rfl text

/-- A sign does not see a brace after the text. -/
theorem readSign_brace (text : List Char) :
    readSign (text ++ ['}']) = ((readSign text).1, (readSign text).2 ++ ['}']) := by
  fun_cases readSign text with
  | case1 rest => rfl
  | case2 rest => rfl
  | case3 _ hplus hminus =>
    rw [readSign]
    · intro after hafter
      obtain ⟨more, rfl⟩ := exists_of_append_brace ['+'] (by decide) hafter
      exact hplus more rfl
    · intro after hafter
      obtain ⟨more, rfl⟩ := exists_of_append_brace ['-'] (by decide) hafter
      exact hminus more rfl

/-- A mantissa does not see a brace after the text. -/
theorem readMantissa?_brace (text : List Char) :
    readMantissa? (text ++ ['}']) = (readMantissa? text).map fun read => (read.1, read.2 ++ ['}']) := by
  by_cases hpoint : (afterDigits text).head? = some '.'
  · obtain ⟨rest, hrest⟩ := List.head?_eq_some_iff.1 hpoint
    have hlong : afterDigits (text ++ ['}']) = '.' :: (rest ++ ['}']) := by
      rw [afterDigits_brace, hrest, List.cons_append]
    rw [readMantissa?_of_point hrest, readMantissa?_of_point hlong, digits_brace, digits_brace,
      afterDigits_brace, afterDigits_brace]
    split
    · split <;> rfl
    · rfl
  · have hlong := head?_brace (by decide) hpoint
    rw [← afterDigits_brace] at hlong
    rw [readMantissa?_of_no_point hpoint, readMantissa?_of_no_point hlong, digits_brace,
      afterDigits_brace]
    split <;> rfl

/-- An exponent does not see a brace after the text. -/
theorem readExponent_brace (text : List Char) :
    readExponent (text ++ ['}']) = ((readExponent text).1, (readExponent text).2 ++ ['}']) := by
  cases text with
  | nil => rfl
  | cons e rest =>
    rw [List.cons_append, readExponent, readExponent, readSign_brace]
    simp only [digits_brace, afterDigits_brace]
    split
    · split <;> rfl
    · rfl

/-- A numeral does not see a brace after the text. -/
theorem readNumber?_brace (text : List Char) :
    readNumber? (text ++ ['}']) = (readNumber? text).map fun read => (read.1, read.2 ++ ['}']) := by
  unfold readNumber?
  rw [readSign_brace]
  simp only [readMantissa?_brace]
  cases readMantissa? (readSign text).2 with
  | none => rfl
  | some read =>
    obtain ⟨mantissa, after⟩ := read
    simp [readExponent_brace]

/-- Question marks do not see a brace after the text. -/
theorem spanQuestionMarks_brace (limit : Nat) (text : List Char) :
    spanQuestionMarks limit (text ++ ['}']) =
      ((spanQuestionMarks limit text).1, (spanQuestionMarks limit text).2 ++ ['}']) := by
  fun_induction spanQuestionMarks limit text with
  | case1 limit rest more ih => rw [List.cons_append, spanQuestionMarks, ih]
  | case2 limit text hmark =>
    rw [spanQuestionMarks]
    intro limit' after hlimit hafter
    obtain ⟨more, rfl⟩ := exists_of_append_brace ['?'] (by decide) hafter
    exact hmark limit' more hlimit rfl

/-- Whether a Unicode range starts here does not depend on a brace after the text. -/
theorem startsUnicodeRange_brace (c : Char) (rest : List Char) :
    startsUnicodeRange (c :: (rest ++ ['}'])) = startsUnicodeRange (c :: rest) := by
  rcases rest with _ | ⟨d, _ | ⟨e, rest⟩⟩
  · rfl
  · by_cases hd : d = '+'
    · subst hd
      show ((c == 'U' || c == 'u') && (isHexDigit '}' || '}' == '?')) = false
      exact Bool.and_false _
    · simp [startsUnicodeRange, hd]
  · by_cases hd : d = '+'
    · subst hd
      rfl
    · simp [startsUnicodeRange, hd]

/-- A Unicode range does not see a brace after the text. -/
theorem readUnicodeRange_brace (text : List Char) :
    readUnicodeRange (text ++ ['}']) =
      ((readUnicodeRange text).1, (readUnicodeRange text).2 ++ ['}']) := by
  unfold readUnicodeRange
  simp only [spanHex_brace, spanQuestionMarks_brace]
  split
  · rfl
  · rcases (spanHex 6 text).2 with _ | ⟨d, _ | ⟨e, rest⟩⟩
    · rfl
    · by_cases hd : d = '-'
      · subst hd
        rfl
      · simp [hd]
    · by_cases hd : d = '-'
      · subst hd
        have hspan := spanHex_brace 6 (e :: rest)
        simp only [List.cons_append] at hspan ⊢
        rw [hspan]
        split <;> rfl
      · simp [hd]

/-! ## Lexemes -/

/-- The tokens of a lexeme with and without a brace after the text: what is read on to the end is a
row of atoms. -/
def Lexed.Grown (short long : Lexed) : Prop :=
  long = (short.1, short.2 ++ ['}']) ∨
    short.2 = [] ∧ long.2 = [] ∧ ∃ atoms atoms' : List Atom,
      short.1 = atoms.map .atom ∧ long.1 = atoms'.map .atom

/-- What is read becomes an atom. -/
theorem Grown.lexAtom {α : Type} {short long : α × List Char} (h : Grown short long) (f : α → Atom) :
    Lexed.Grown (lexAtom (f short.1) short.2) (lexAtom (f long.1) long.2) := by
  rcases h with h | ⟨hshort, hlong⟩
  · rw [h]
    exact .inl rfl
  · exact .inr ⟨hshort, hlong, [f short.1], [f long.1], rfl, rfl⟩

/-- What is read of a delimited value becomes atoms. -/
theorem Reading.Grown.lexed {short long : Reading} (h : short.Grown long)
    (atoms : List Char → Ending → List Atom) :
    Lexed.Grown ((atoms short.value short.ending).map .atom, short.rest)
      ((atoms long.value long.ending).map .atom, long.rest) := by
  rcases h with rfl | ⟨hshort, hlong⟩
  · exact .inl rfl
  · exact .inr ⟨hshort, hlong, _, _, rfl, rfl⟩

/-- The atoms of an unquoted URL. -/
def urlAtoms (value : List Char) : Ending → List Atom
  | .closed => [.url value true]
  | .endOfInput => [.url value false, .fault .openUrl]
  | .bad => [.fault .badUrl]

/-- The lexeme of a URL in terms of what is read of it. -/
theorem lexUrl_eq (text : List Char) :
    lexUrl text =
      ((urlAtoms (readUrl text).value (readUrl text).ending).map .atom, (readUrl text).rest) := by
  unfold lexUrl
  obtain ⟨value, ending, rest⟩ := readUrl text
  cases ending <;> rfl

/-- The lexeme of a URL leaves the brace, or is a row of atoms to the end. -/
theorem lexUrl_brace (text : List Char) : Lexed.Grown (lexUrl text) (lexUrl (text ++ ['}'])) := by
  rw [lexUrl_eq, lexUrl_eq]
  exact (readUrl_brace text).lexed urlAtoms

/-- The atoms of a string. -/
def stringAtoms (value : List Char) : Ending → List Atom
  | .closed => [.string value true]
  | .endOfInput => [.string value false, .fault .openString]
  | .bad => [.fault .badString]

/-- The lexeme of a string in terms of what is read of it. -/
theorem lexString_eq (quote : Char) (text : List Char) :
    lexString quote text =
      ((stringAtoms (readString quote text).value (readString quote text).ending).map .atom,
        (readString quote text).rest) := by
  unfold lexString
  obtain ⟨value, ending, rest⟩ := readString quote text
  cases ending <;> rfl

/-- The lexeme of a string leaves the brace, or is a row of atoms to the end. -/
theorem lexString_brace {quote : Char} (hquote : quote = '"' ∨ quote = '\'') (text : List Char) :
    Lexed.Grown (lexString quote text) (lexString quote (text ++ ['}'])) := by
  rw [lexString_eq, lexString_eq]
  exact (readString_brace hquote text).lexed stringAtoms

/-- Whether the argument of a URL is quoted does not depend on a brace after the text. -/
theorem startsQuoted_brace (text : List Char) :
    startsQuoted (text ++ ['}']) = startsQuoted text := by
  unfold startsQuoted
  rw [dropWhile_brace rfl]
  cases text.dropWhile isSpace with
  | nil => rfl
  | cons c rest => rfl

/-- The lexeme that an identifier starts leaves the brace, or is a row of atoms to the end. -/
theorem lexIdent_brace (text : List Char) : Lexed.Grown (lexIdent text) (lexIdent (text ++ ['}'])) := by
  have hname := readName_brace text
  by_cases hopen : (readName text).2.head? = some '('
  · obtain ⟨rest, hrest⟩ := List.head?_eq_some_iff.1 hopen
    rcases hname with hlong | ⟨hshort, -⟩
    · have hrest' : (readName (text ++ ['}'])).2 = '(' :: (rest ++ ['}']) := by
        rw [hlong, hrest, List.cons_append]
      rw [lexIdent_of_open hrest, lexIdent_of_open hrest', hlong, startsQuoted_brace]
      split
      · exact lexUrl_brace rest
      · exact .inl rfl
    · rw [hshort] at hrest
      cases hrest
  · have hopen' : (readName (text ++ ['}'])).2.head? ≠ some '(' := by
      rcases hname with hlong | ⟨-, hlong⟩
      · rw [hlong]
        exact head?_brace (by decide) hopen
      · rw [hlong]
        exact nofun
    rw [lexIdent_of_no_open hopen, lexIdent_of_no_open hopen']
    exact hname.lexAtom .ident

/-- The lexeme of a numeral leaves the brace, or is a row of atoms to the end. -/
theorem lexNumeric_brace (numeral rest : List Char) :
    Lexed.Grown (lexNumeric numeral rest) (lexNumeric numeral (rest ++ ['}'])) := by
  have hstart := startsIdent_brace rest
  cases hunit : startsIdent rest with
  | true =>
    rw [lexNumeric_of_unit hunit, lexNumeric_of_unit (hstart.trans hunit)]
    exact (readName_brace rest).lexAtom (.dimension numeral)
  | false =>
    by_cases hpercent : rest.head? = some '%'
    · obtain ⟨after, rfl⟩ := List.head?_eq_some_iff.1 hpercent
      rw [List.cons_append, lexNumeric_percent, lexNumeric_percent]
      exact .inl rfl
    · rw [lexNumeric_of_plain hunit hpercent,
        lexNumeric_of_plain (hstart.trans hunit) (head?_brace (by decide) hpercent)]
      exact .inl rfl

/-- A comment leaves the brace behind it, or goes on to the end. -/
theorem afterComment_brace (text : List Char) :
    afterComment (text ++ ['}']) = afterComment text ++ ['}'] ∨
      (afterComment text = [] ∧ afterComment (text ++ ['}']) = []) := by
  fun_induction afterComment text with
  | case1 => exact .inr ⟨rfl, by decide⟩
  | case2 rest => exact .inl rfl
  | case3 c rest hclose ih =>
    rw [List.cons_append, afterComment]
    · exact ih
    · intro after hc hafter
      obtain ⟨more, rfl⟩ := exists_of_append_brace ['/'] (by decide) hafter
      exact hclose more hc rfl

/-- The lexeme of an operator leaves the brace. -/
theorem lexOperator_brace (c : Char) (rest : List Char) :
    Lexed.Grown (lexOperator c rest) (lexOperator c (rest ++ ['}'])) := by
  by_cases h : rest.head? = some '='
  · obtain ⟨after, rfl⟩ := List.head?_eq_some_iff.1 h
    exact .inl rfl
  · rw [lexOperator_of_no_equals h, lexOperator_of_no_equals (head?_brace (by decide) h)]
    exact .inl rfl

/-- The lexeme of any other character leaves the brace, or is a row of atoms to the end. -/
theorem lexSymbol_brace (c : Char) (rest : List Char) :
    Lexed.Grown (lexSymbol c rest) (lexSymbol c (rest ++ ['}'])) := by
  have hident := startsIdent_brace rest
  have hname := readName_brace rest
  have hhash : ((rest ++ ['}']).head?.any isNameChar || startsEscape (rest ++ ['}'])) =
      (rest.head?.any isNameChar || startsEscape rest) := by
    rw [startsEscape_brace]
    cases rest with
    | nil => rfl
    | cons d rest => rfl
  fun_cases lexSymbol c rest with
  | case1 rest hstart name =>
    simp only [lexSymbol, hident, hstart, if_true]
    exact hname.lexAtom .atKeyword
  | case2 rest hstart =>
    simp only [lexSymbol, hident, hstart]
    exact .inl rfl
  | case3 rest hstart name =>
    simp only [lexSymbol, hident, hhash, hstart, if_true]
    exact hname.lexAtom fun name => .hash name (startsIdent rest)
  | case4 rest hstart =>
    simp only [lexSymbol, hhash, hstart]
    exact .inl rfl
  | case5 => exact .inl rfl
  | case6 => exact .inl rfl
  | case7 => exact .inl rfl
  | case8 => exact .inl rfl
  | case9 => exact .inl rfl
  | case10 => exact .inl rfl
  | case11 => exact lexString_brace (.inl rfl) _
  | case12 => exact lexString_brace (.inr rfl) _
  | case13 after =>
    rcases afterComment_brace after with h | ⟨hshort, hlong⟩
    · exact .inl (congrArg ([], ·) h)
    · exact .inr ⟨hshort, hlong, [], [], rfl, rfl⟩
  | case14 rest hcomment =>
    rw [lexSymbol]
    · exact .inl rfl
    · intro after hafter
      obtain ⟨more, rfl⟩ := exists_of_append_brace ['*'] (by decide) hafter
      exact hcomment more rfl
  | case15 after => exact .inl rfl
  | case16 rest hmark =>
    rw [lexSymbol]
    · exact .inl rfl
    · intro after hafter
      obtain ⟨more, rfl⟩ := exists_of_append_brace ['!', '-', '-'] (by decide) hafter
      exact hmark more rfl
  | case17 after => exact .inl rfl
  | case18 rest hbar =>
    rw [lexSymbol]
    · exact lexOperator_brace _ _
    · intro after hafter
      obtain ⟨more, rfl⟩ := exists_of_append_brace ['|'] (by decide) hafter
      exact hbar more rfl
  | case19 => exact lexOperator_brace _ _
  | case20 => exact lexOperator_brace _ _
  | case21 => exact lexOperator_brace _ _
  | case22 => exact lexOperator_brace _ _
  | case23 =>
    rw [lexSymbol]
    · exact .inl rfl
    all_goals assumption

/-- Neither a range nor a mark starts here because of a brace after the text. -/
theorem StartsWord.brace {c : Char} {rest : List Char} (h : StartsWord c rest) :
    StartsWord c (rest ++ ['}']) := by
  obtain ⟨hspace, hrange, hmark⟩ := h
  refine ⟨hspace, (startsUnicodeRange_brace c rest).trans hrange, fun after hc hafter => ?_⟩
  obtain ⟨more, rfl⟩ := exists_of_append_brace ['-', '>'] (by decide) hafter
  exact hmark more hc rfl

/-- One lexeme, with and without a brace after the text. -/
theorem readToken_brace (c : Char) (rest : List Char) :
    Lexed.Grown (readToken c rest) (readToken c (rest ++ ['}'])) := by
  rcases readToken_cases c rest with hspace | ⟨hspace, hrange⟩ | ⟨rfl, after, rfl⟩ | hword
  · rw [readToken_space hspace, readToken_space hspace, takeWhile_brace rfl, dropWhile_brace rfl]
    exact .inl rfl
  · have hplus : (rest ++ ['}']).drop 1 = rest.drop 1 ++ ['}'] := by
      cases rest with
      | nil => cases hrange
      | cons d rest => rfl
    rw [readToken_range hspace hrange,
      readToken_range hspace ((startsUnicodeRange_brace c rest).trans hrange), hplus,
      readUnicodeRange_brace]
    exact .inl rfl
  · exact .inl rfl
  · have hident := startsIdent_brace (c :: rest)
    have hnumber := readNumber?_brace (c :: rest)
    rw [List.cons_append] at hident hnumber
    rw [readToken_word hword, readToken_word hword.brace, hident]
    split
    · exact lexIdent_brace (c :: rest)
    · rw [hnumber]
      rcases readNumber? (c :: rest) with _ | ⟨numeral, after⟩
      · exact lexSymbol_brace c rest
      · exact lexNumeric_brace numeral after

/-- **The tokens of a text with a brace after it.** The brace is one more token, or else it is read
as part of what stands before it, and only atoms at the end change. -/
theorem scan_brace (text : List Char) :
    scan (text ++ ['}']) = scan text ++ [.closing .curly] ∨
      ∃ (front : List Token) (atoms atoms' : List Atom),
        scan text = front ++ atoms.map .atom ∧ scan (text ++ ['}']) = front ++ atoms'.map .atom := by
  fun_induction scan text with
  | case1 =>
    refine .inl ?_
    rw [List.nil_append, scan]
    have hread : readToken '}' [] = ([.closing .curly], []) := by
      have hword : StartsWord '}' [] := ⟨rfl, rfl, fun _ h => absurd h (by decide)⟩
      rw [readToken_word hword]
      rfl
    rw [hread]
    simp [scan]
  | case2 c rest lexed ih =>
    rw [List.cons_append, scan]
    rcases readToken_brace c rest with h | ⟨hshort, hlong, atoms, atoms', hatoms, hatoms'⟩
    · rw [h]
      rcases ih with ih | ⟨front, atoms, atoms', hfront, hfront'⟩
      · exact .inl (by rw [ih, List.append_assoc])
      · refine .inr ⟨lexed.1 ++ front, atoms, atoms', ?_, ?_⟩
        · rw [hfront, List.append_assoc]
        · rw [hfront', List.append_assoc]
    · refine .inr ⟨[], atoms, atoms', ?_, ?_⟩
      · rw [show lexed.2 = [] from hshort, scan, List.append_nil]
        exact hatoms
      · rw [hlong, scan, List.append_nil]
        exact hatoms'

end CssTemplate.Css
