import CssTemplate.Proofs.Css.Recoloring

/-!
# Tokens of a recolored text

Strings, URLs, numbers and whole lexemes commute with a recoloring, and so does the scanner: the
tokens of a recolored text are the recolored tokens of the text (`scan_map`).
-/

namespace CssTemplate.Css

/-- An atom in other colors. -/
def Atom.map (f : Char → Char) : Atom → Atom
  | .space text => .space (text.map f)
  | .literal text => .literal (text.map f)
  | .ident name => .ident (name.map f)
  | .atKeyword name => .atKeyword (name.map f)
  | .hash name isIdent => .hash (name.map f) isIdent
  | .string value closed => .string (value.map f) closed
  | .url value closed => .url (value.map f) closed
  | .unicodeRange first last => .unicodeRange first last
  | .number numeral => .number (numeral.map f)
  | .percentage numeral => .percentage (numeral.map f)
  | .dimension numeral unit => .dimension (numeral.map f) (unit.map f)
  | .fault what => .fault what

/-- An opening in other colors. -/
def Opening.map (f : Char → Char) : Opening → Opening
  | .bracket b => .bracket b
  | .function name => .function (name.map f)

/-- A token in other colors. -/
def Token.map (f : Char → Char) : Token → Token
  | .atom a => .atom (a.map f)
  | .opening o => .opening (o.map f)
  | .closing b => .closing b

/-- A lexeme in other colors. -/
def Lexed.map (f : Char → Char) (lexed : Lexed) : Lexed :=
  (lexed.1.map (Token.map f), lexed.2.map f)

/-- A reading in other colors. -/
def Reading.map (f : Char → Char) (r : Reading) : Reading :=
  ⟨r.value.map f, r.ending, r.rest.map f⟩

/-- Dropping a run commutes with a recoloring that the test does not see. -/
theorem dropWhile_map_of {f : Char → Char} {p : Char → Bool} (hp : ∀ c, p (f c) = p c)
    (text : List Char) : (text.map f).dropWhile p = (text.dropWhile p).map f := by
  rw [List.dropWhile_map, show p ∘ f = p from funext hp]

/-- Taking a run commutes with a recoloring that the test does not see. -/
theorem takeWhile_map_of {f : Char → Char} {p : Char → Bool} (hp : ∀ c, p (f c) = p c)
    (text : List Char) : (text.map f).takeWhile p = (text.takeWhile p).map f := by
  rw [List.takeWhile_map, show p ∘ f = p from funext hp]

section

variable {f : Char → Char} (hf : Recoloring f)

include hf

/-- Preprocessing commutes with a recoloring. -/
theorem normalize_map (text : List Char) : normalize (text.map f) = (normalize text).map f := by
  fun_induction normalize text with
  | case1 => rfl
  | case2 rest ih =>
    rw [List.map_cons, List.map_cons, hf.fixes '\r' rfl, hf.fixes '\n' rfl,
      normalize, ih, List.map_cons, hf.fixes '\n' rfl]
  | case3 c rest hcr ih =>
    have hcr' : ∀ rest', f c = '\r' → rest.map f = '\n' :: rest' → False := by
      intro rest' hc hrest
      rw [hf.eq_ascii_iff '\r' rfl] at hc
      have hhead := (head?_map_eq_some hf rest '\n' rfl).1 (by rw [hrest]; rfl)
      obtain ⟨more, rfl⟩ := List.head?_eq_some_iff.1 hhead
      exact hcr more hc rfl
    have hnull : (f c).toNat = 0 ↔ c.toNat = 0 := by
      have := hf.apply_eq (p := fun c => decide (c.toNat = 0)) (b := false)
        (fun c hc => decide_eq_false (by omega)) c
      simpa using this
    rw [List.map_cons, normalize, ih, List.map_cons]
    · congr 1
      simp only [Bool.or_eq_true, decide_eq_true_eq, hf.eq_ascii_iff '\r' rfl,
        hf.eq_ascii_iff '\x0c' rfl, hnull]
      split
      · exact (hf.fixes '\n' rfl).symm
      · split
        · exact hf.replacement.symm
        · rfl
    · exact hcr'

/-! ## Strings and URLs -/

/-- Reading a string commutes with a recoloring. -/
theorem readString_map {quote : Char} (hquote : quote.toNat < 0x80) {text : List Char}
    (h : KeepsEscapes f text) :
    readString quote (text.map f) = (readString quote text).map f := by
  have hbackslash := hf.fixes '\\' rfl
  have hline := hf.fixes '\n' rfl
  fun_induction readString quote text with
  | case1 => simp [readString, Reading.map]
  | case2 rest => rw [List.map_cons, hf.ascii quote hquote, readString_quote]; rfl
  | case3 hq => rw [List.map_singleton, hbackslash, readString_backslash (Ne.symm hq)]; rfl
  | case4 after hq ih =>
    rw [List.map_cons, List.map_cons, hbackslash, hline, readString_joined (Ne.symm hq),
      ih (h.of_suffix ((List.suffix_cons _ _).trans (List.suffix_cons _ _)))]
  | case5 d after hd escape hq ih =>
    have hd' : f d ≠ '\n' := fun hfd => hd ((hf.eq_ascii_iff '\n' rfl).1 hfd)
    have hescape := readEscape_map hf (h (d :: after) List.suffix_rfl)
    rw [List.map_cons] at hescape
    rw [List.map_cons, List.map_cons, hbackslash, readString_escape (Ne.symm hq) _ hd', hescape,
      ih (h.of_suffix ((readEscape_suffix _).trans (List.suffix_cons _ _)))]
    rfl
  | case6 rest hq _ =>
    rw [List.map_cons, hline, readString_lineEnd _ (Ne.symm hq), Reading.map, List.map_cons, hline]
    rfl
  | case7 c rest hq hb hl ih =>
    rw [List.map_cons, readString_cons _ (mt (hf.eq_ascii_iff quote (decide_eq_true hquote)).1 hq)
      (mt (hf.eq_ascii_iff '\\' rfl).1 hb) (mt (hf.eq_ascii_iff '\n' rfl).1 hl),
      ih (h.of_suffix (List.suffix_cons _ _))]
    rfl

/-- Skipping a broken URL commutes with a recoloring. -/
theorem afterBadUrl_map (text : List Char) :
    afterBadUrl (text.map f) = (afterBadUrl text).map f := by
  fun_induction afterBadUrl text with
  | case1 => rfl
  | case2 rest ih =>
    rw [List.map_cons, List.map_cons, hf.fixes '\\' rfl, hf.fixes ')' rfl,
      afterBadUrl, ih]
  | case3 rest => rw [List.map_cons, hf.fixes ')' rfl, afterBadUrl]
  | case4 c rest hescaped hclose ih =>
    rw [List.map_cons, afterBadUrl, ih]
    · intro rest' hc hrest
      have hhead := (head?_map_eq_some hf rest ')' rfl).1 (by rw [hrest]; rfl)
      obtain ⟨more, rfl⟩ := List.head?_eq_some_iff.1 hhead
      exact hescaped more ((hf.eq_ascii_iff '\\' rfl).1 hc) rfl
    · exact fun hc => hclose ((hf.eq_ascii_iff ')' rfl).1 hc)

/-- Ending a URL at white space commutes with a recoloring. -/
theorem finishUrl_map (text : List Char) : finishUrl (text.map f) = (finishUrl text).map f := by
  have hdrop := dropWhile_map_of hf.isSpace text
  unfold finishUrl
  rw [hdrop]
  rcases text.dropWhile isSpace with _ | ⟨c, rest⟩
  · rfl
  · by_cases hc : c = ')'
    · subst hc
      simp only [List.map_cons, hf.fixes ')' rfl]
      rfl
    · have hc' : f c ≠ ')' := mt (hf.eq_ascii_iff ')' rfl).1 hc
      have hbad := afterBadUrl_map hf (c :: rest)
      rw [List.map_cons] at hbad ⊢
      split
      · next h => cases h
      · next h => exact absurd (List.cons.inj h).1 hc'
      · split
        · next h => cases h
        · next h => exact absurd (List.cons.inj h).1 hc
        · rw [hbad]; rfl

/-- Reading the characters of a URL commutes with a recoloring. -/
theorem readUrlBody_map {text : List Char} (h : KeepsEscapes f text) :
    readUrlBody (text.map f) = (readUrlBody text).map f := by
  fun_induction readUrlBody text with
  | case1 => rw [List.map_nil, readUrlBody]; rfl
  | case2 rest => rw [List.map_cons, hf.fixes ')' rfl, readUrlBody, if_pos rfl]; rfl
  | case3 c rest hc hs =>
    rw [List.map_cons, readUrlBody, if_neg (mt (hf.eq_ascii_iff ')' rfl).1 hc),
      if_pos (by rw [hf.isSpace]; exact hs), finishUrl_map hf]
  | case4 c rest hc hs he escape ih =>
    have hstart : startsEscape (f c :: rest.map f) = true := by
      rw [← List.map_cons, startsEscape_map hf]; exact he
    have hescape := readEscape_map hf (h rest (eq_backslash_of_startsEscape he ▸ List.suffix_rfl))
    rw [List.map_cons, readUrlBody, if_neg (mt (hf.eq_ascii_iff ')' rfl).1 hc),
      if_neg (by rw [hf.isSpace]; exact hs), if_pos hstart, hescape]
    simp only
    rw [ih (h.of_suffix ((readEscape_suffix rest).trans (List.suffix_cons c rest)))]
    rfl
  | case5 c rest hc hs he hu =>
    have hstart : ¬startsEscape (f c :: rest.map f) = true := by
      rw [← List.map_cons, startsEscape_map hf]; exact he
    rw [List.map_cons, readUrlBody, if_neg (mt (hf.eq_ascii_iff ')' rfl).1 hc),
      if_neg (by rw [hf.isSpace]; exact hs), if_neg hstart,
      if_pos (by rw [hf.isUrlForbidden]; exact hu), afterBadUrl_map hf]
    rfl
  | case6 c rest hc hs he hu ih =>
    have hstart : ¬startsEscape (f c :: rest.map f) = true := by
      rw [← List.map_cons, startsEscape_map hf]; exact he
    rw [List.map_cons, readUrlBody, if_neg (mt (hf.eq_ascii_iff ')' rfl).1 hc),
      if_neg (by rw [hf.isSpace]; exact hs), if_neg hstart,
      if_neg (by rw [hf.isUrlForbidden]; exact hu), ih (h.of_suffix (List.suffix_cons c rest))]
    rfl

/-- Reading an unquoted URL commutes with a recoloring. -/
theorem readUrl_map {text : List Char} (h : KeepsEscapes f text) :
    readUrl (text.map f) = (readUrl text).map f := by
  rw [readUrl, dropWhile_map_of hf.isSpace,
    readUrlBody_map hf (h.of_suffix (List.dropWhile_suffix _)), readUrl]

/-! ## Numbers -/

/-- Reading digits commutes with a recoloring. -/
theorem digits_map (text : List Char) : digits (text.map f) = (digits text).map f :=
  takeWhile_map_of hf.isDigit text

/-- Skipping digits commutes with a recoloring. -/
theorem afterDigits_map (text : List Char) : afterDigits (text.map f) = (afterDigits text).map f :=
  dropWhile_map_of hf.isDigit text

/-- Reading a sign commutes with a recoloring. -/
theorem readSign_map (text : List Char) :
    readSign (text.map f) = ((readSign text).1.map f, (readSign text).2.map f) := by
  fun_cases readSign text with
  | case1 rest => simp [readSign, hf.fixes '+' rfl]
  | case2 rest => simp [readSign, hf.fixes '-' rfl]
  | case3 text hplus hminus =>
    cases text with
    | nil => rfl
    | cons c rest =>
      have hp : f c ≠ '+' := fun hc => hplus rest (by rw [(hf.eq_ascii_iff '+' rfl).1 hc])
      have hm : f c ≠ '-' := fun hc => hminus rest (by rw [(hf.eq_ascii_iff '-' rfl).1 hc])
      simp [readSign, hp, hm]

/-- Reading a mantissa commutes with a recoloring. -/
theorem readMantissa?_map (text : List Char) : readMantissa? (text.map f) =
    (readMantissa? text).map fun read => (read.1.map f, read.2.map f) := by
  have hplain : (if ((digits text).map f).isEmpty then none
        else some ((digits text).map f, (afterDigits text).map f)) =
      (if (digits text).isEmpty then none else some (digits text, afterDigits text)).map
        fun read => (read.1.map f, read.2.map f) := by
    rw [List.isEmpty_map]
    split <;> rfl
  by_cases hpoint : (afterDigits text).head? = some '.'
  · obtain ⟨rest, hrest⟩ := List.head?_eq_some_iff.1 hpoint
    have hrest' : afterDigits (text.map f) = '.' :: rest.map f := by
      rw [afterDigits_map hf, hrest, List.map_cons, hf.fixes '.' rfl]
    rw [readMantissa?_of_point hrest', readMantissa?_of_point hrest, digits_map hf, digits_map hf,
      afterDigits_map hf, afterDigits_map hf, List.isEmpty_map (l := digits rest), hplain]
    split
    · rfl
    · simp [hf.fixes '.' rfl]
  · have hpoint' : (afterDigits (text.map f)).head? ≠ some '.' := by
      rw [afterDigits_map hf, Ne, head?_map_eq_some hf _ '.' rfl]
      exact hpoint
    rw [readMantissa?_of_no_point hpoint', readMantissa?_of_no_point hpoint, digits_map hf,
      afterDigits_map hf, hplain]

/-- Reading an exponent commutes with a recoloring. -/
theorem readExponent_map (text : List Char) :
    readExponent (text.map f) = ((readExponent text).1.map f, (readExponent text).2.map f) := by
  cases text with
  | nil => rfl
  | cons e rest =>
    have he : (f e == 'e' || f e == 'E') = (e == 'e' || e == 'E') :=
      hf.apply_eq (p := fun e => e == 'e' || e == 'E') (b := false) (fun c hc => by
        simp [ne_of_nonAscii hc]) e
    simp only [List.map_cons, readExponent, he, readSign_map hf, digits_map hf, List.isEmpty_map]
    split
    · split
      · rfl
      · simp [afterDigits_map hf]
    · rfl

/-- Reading a numeral commutes with a recoloring. -/
theorem readNumber?_map (text : List Char) : readNumber? (text.map f) =
    (readNumber? text).map fun read => (read.1.map f, read.2.map f) := by
  unfold readNumber?
  simp only [readSign_map hf, readMantissa?_map hf]
  rcases readMantissa? (readSign text).2 with _ | ⟨mantissa, rest⟩
  · rfl
  · simp [readExponent_map hf]

/-! ## Unicode ranges -/

/-- Reading question marks commutes with a recoloring. -/
theorem spanQuestionMarks_map (limit : Nat) (text : List Char) :
    spanQuestionMarks limit (text.map f) =
      ((spanQuestionMarks limit text).1, (spanQuestionMarks limit text).2.map f) := by
  fun_induction spanQuestionMarks limit text with
  | case1 limit rest more ih =>
    rw [List.map_cons, hf.fixes '?' rfl, spanQuestionMarks, ih]
  | case2 limit text h =>
    rw [spanQuestionMarks]
    intro limit' rest' hlimit hrest
    have hhead := (head?_map_eq_some hf text '?' rfl).1 (by rw [hrest]; rfl)
    obtain ⟨more, rfl⟩ := List.head?_eq_some_iff.1 hhead
    exact h limit' more hlimit rfl

/-- Whether a Unicode range starts here does not depend on colors. -/
theorem startsUnicodeRange_map (text : List Char) :
    startsUnicodeRange (text.map f) = startsUnicodeRange text := by
  have hu : ∀ c, (f c == 'U' || f c == 'u') = (c == 'U' || c == 'u') :=
    hf.apply_eq (p := fun c => c == 'U' || c == 'u') (b := false) fun c hc => by
      simp [ne_of_nonAscii hc]
  have hq : ∀ c, (f c == '?') = (c == '?') :=
    hf.apply_eq (p := fun c => c == '?') (b := false) fun c hc => by
      simp [ne_of_nonAscii hc]
  fun_cases startsUnicodeRange text with
  | case1 u c rest =>
    simp only [List.map_cons, hf.fixes '+' rfl, startsUnicodeRange, hu, hq, hf.isHexDigit]
  | case2 text h =>
    unfold startsUnicodeRange
    split
    · next u c rest heq =>
      obtain ⟨u', text', rfl, -, heq⟩ := List.map_eq_cons_iff.1 heq
      obtain ⟨rest', rfl⟩ := hf.exists_of_map_eq_append ['+'] (by decide) heq
      obtain ⟨c', rest', rfl, -, -⟩ := List.map_eq_cons_iff.1 (List.cons.inj heq).2
      exact absurd rfl (h u' c' rest')
    · rfl

/-- Reading a Unicode range commutes with a recoloring. -/
theorem readUnicodeRange_map (text : List Char) : readUnicodeRange (text.map f) =
    ((readUnicodeRange text).1, (readUnicodeRange text).2.map f) := by
  unfold readUnicodeRange
  simp only [spanHex_map hf, spanQuestionMarks_map hf]
  split
  · rfl
  · rcases (spanHex 6 text).2 with _ | ⟨c, rest⟩
    · rfl
    · by_cases hc : c = '-'
      · subst hc
        cases rest with
        | nil => simp [hf.fixes '-' rfl]
        | cons d rest =>
          have hspan := spanHex_map hf 6 (d :: rest)
          rw [List.map_cons] at hspan
          simp only [List.map_cons, hf.fixes '-' rfl, hf.isHexDigit, hspan]
          split <;> simp [hf.fixes '-' rfl]
      · have hc' : f c ≠ '-' := mt (hf.eq_ascii_iff '-' rfl).1 hc
        simp only [List.map_cons]
        split
        · next h => exact absurd (List.cons.inj h).1 hc'
        · split
          · next h => exact absurd (List.cons.inj h).1 hc
          · rfl

omit hf in
/-- A Unicode range has no characters. -/
theorem map_readUnicodeRange (text : List Char) :
    (readUnicodeRange text).1.map f = (readUnicodeRange text).1 := by
  unfold readUnicodeRange
  simp only
  split
  · rfl
  · split
    · split <;> rfl
    · rfl

/-! ## Lexemes -/

/-- Whether a name is that of the URL function does not depend on colors. -/
theorem isUrlName_map (name : List Char) : isUrlName (name.map f) = isUrlName name := by
  have hlower : (name.map f).map Char.toLower = (name.map Char.toLower).map f := by
    rw [List.map_map, List.map_map]
    exact List.map_congr_left fun c _ => hf.toLower c
  rw [isUrlName, isUrlName, hlower, Bool.eq_iff_iff, beq_iff_eq, beq_iff_eq]
  exact hf.map_eq_ascii_iff (by decide)

/-- Whether the argument of a URL is quoted does not depend on colors. -/
theorem startsQuoted_map (text : List Char) : startsQuoted (text.map f) = startsQuoted text := by
  unfold startsQuoted
  rw [dropWhile_map_of hf.isSpace]
  rcases text.dropWhile isSpace with _ | ⟨c, rest⟩
  · rfl
  · exact hf.apply_eq (p := fun c => c == '"' || c == '\'') (b := false) (fun c hc => by
      simp [ne_of_nonAscii hc]) c

/-- The lexeme of a recolored URL is the recolored lexeme. -/
theorem lexUrl_map {text : List Char} (h : KeepsEscapes f text) :
    lexUrl (text.map f) = (lexUrl text).map f := by
  unfold lexUrl
  rw [readUrl_map hf h]
  simp only [Reading.map]
  split <;> rfl

/-- The lexeme of a recolored string is the recolored lexeme. -/
theorem lexString_map {quote : Char} (hquote : quote.toNat < 0x80) {text : List Char}
    (h : KeepsEscapes f text) : lexString quote (text.map f) = (lexString quote text).map f := by
  unfold lexString
  rw [readString_map hf hquote h]
  simp only [Reading.map]
  split <;> rfl

/-- The lexeme that a recolored identifier starts is the recolored lexeme. -/
theorem lexIdent_map {text : List Char} (h : KeepsEscapes f text) :
    lexIdent (text.map f) = (lexIdent text).map f := by
  have hname := readName_map hf h
  by_cases hopen : (readName text).2.head? = some '('
  · obtain ⟨rest, hrest⟩ := List.head?_eq_some_iff.1 hopen
    have hrest' : (readName (text.map f)).2 = '(' :: rest.map f := by
      rw [hname, hrest, List.map_cons, hf.fixes '(' rfl]
    have hkeeps : KeepsEscapes f rest := by
      have hsuffix := readName_suffix text
      rw [hrest] at hsuffix
      exact h.of_suffix ((List.suffix_cons _ _).trans hsuffix)
    rw [lexIdent_of_open hrest', lexIdent_of_open hrest, hname, isUrlName_map hf,
      startsQuoted_map hf, lexUrl_map hf hkeeps]
    split <;> rfl
  · have hopen' : (readName (text.map f)).2.head? ≠ some '(' := by
      rw [hname, Ne, head?_map_eq_some hf _ '(' rfl]
      exact hopen
    rw [lexIdent_of_no_open hopen', lexIdent_of_no_open hopen, hname]
    rfl

/-- The lexeme of a recolored numeral is the recolored lexeme. -/
theorem lexNumeric_map (numeral : List Char) {rest : List Char} (h : KeepsEscapes f rest) :
    lexNumeric (numeral.map f) (rest.map f) = (lexNumeric numeral rest).map f := by
  have hstart := startsIdent_map hf rest
  by_cases hunit : startsIdent rest = true
  · rw [lexNumeric_of_unit hunit, lexNumeric_of_unit (hstart.trans hunit), readName_map hf h]
    rfl
  · rw [Bool.not_eq_true] at hunit
    by_cases hpercent : rest.head? = some '%'
    · obtain ⟨after, rfl⟩ := List.head?_eq_some_iff.1 hpercent
      rw [List.map_cons, hf.fixes '%' rfl, lexNumeric_percent, lexNumeric_percent]
      rfl
    · rw [lexNumeric_of_plain hunit hpercent, lexNumeric_of_plain (hstart.trans hunit)]
      · rfl
      · rw [Ne, head?_map_eq_some hf _ '%' rfl]
        exact hpercent

/-- Skipping a comment commutes with a recoloring. -/
theorem afterComment_map (text : List Char) :
    afterComment (text.map f) = (afterComment text).map f := by
  fun_induction afterComment text with
  | case1 => rfl
  | case2 rest =>
    rw [List.map_cons, List.map_cons, hf.fixes '*' rfl, hf.fixes '/' rfl,
      afterComment]
  | case3 c rest h ih =>
    rw [List.map_cons, afterComment, ih]
    intro rest' hc hrest
    have hhead := (head?_map_eq_some hf rest '/' rfl).1 (by rw [hrest]; rfl)
    obtain ⟨more, rfl⟩ := List.head?_eq_some_iff.1 hhead
    exact h more ((hf.eq_ascii_iff '*' rfl).1 hc) rfl

/-- The lexeme of an operator in front of a recolored text is the recolored lexeme. -/
theorem lexOperator_map {c : Char} (hc : c.toNat < 0x80) (rest : List Char) :
    lexOperator c (rest.map f) = (lexOperator c rest).map f := by
  have hequals := hf.fixes '=' rfl
  by_cases h : rest.head? = some '='
  · obtain ⟨after, rfl⟩ := List.head?_eq_some_iff.1 h
    rw [List.map_cons, hequals, lexOperator_equals, lexOperator_equals]
    simp [lexLiteral, lexAtom, Lexed.map, Token.map, Atom.map, hequals, hf.ascii c hc]
  · have h' : (rest.map f).head? ≠ some '=' := by
      rw [Ne, head?_map_eq_some hf _ '=' rfl]
      exact h
    rw [lexOperator_of_no_equals h, lexOperator_of_no_equals h']
    simp [lexLiteral, lexAtom, Lexed.map, Token.map, Atom.map, hf.ascii c hc]

/-- A literal of one ASCII character. -/
theorem lexLiteral_map {c : Char} (hc : c.toNat < 0x80) (rest : List Char) :
    lexLiteral [c] (rest.map f) = (lexLiteral [c] rest).map f := by
  simp [lexLiteral, lexAtom, Lexed.map, Token.map, Atom.map, hf.ascii c hc]

/-- The lexeme of any other ASCII character in front of a recolored text is the recolored lexeme. -/
theorem lexSymbol_map {c : Char} (hc : c.toNat < 0x80) {rest : List Char}
    (h : KeepsEscapes f rest) : lexSymbol c (rest.map f) = (lexSymbol c rest).map f := by
  have hident := startsIdent_map hf rest
  have hname := readName_map hf h
  have hhash : ((rest.map f).head?.any isNameChar || startsEscape (rest.map f)) =
      (rest.head?.any isNameChar || startsEscape rest) := by
    rw [startsEscape_map hf]
    cases rest with
    | nil => rfl
    | cons d rest => simp only [List.map_cons, List.head?_cons, Option.any_some, hf.isNameChar]
  fun_cases lexSymbol c rest with
  | case1 rest hstart name =>
    simp only [lexSymbol, hident, hname, hstart, if_true]
    rfl
  | case2 rest hstart =>
    simp only [lexSymbol, hident, hstart]
    exact lexLiteral_map hf hc _
  | case3 rest hstart name =>
    simp only [lexSymbol, hident, hname, hhash, hstart, if_true]
    rfl
  | case4 rest hstart =>
    simp only [lexSymbol, hhash, hstart]
    exact lexLiteral_map hf hc _
  | case5 => rfl
  | case6 => rfl
  | case7 => rfl
  | case8 => rfl
  | case9 => rfl
  | case10 => rfl
  | case11 => exact lexString_map hf hc h
  | case12 => exact lexString_map hf hc h
  | case13 after =>
    rw [List.map_cons, hf.fixes '*' rfl]
    exact congrArg ([], ·) (afterComment_map hf after)
  | case14 rest hcomment =>
    rw [lexSymbol, lexLiteral_map hf hc]
    intro after hafter
    obtain ⟨more, rfl⟩ := hf.exists_of_map_eq_append ['*'] (by decide) hafter
    exact hcomment more rfl
  | case15 after =>
    rw [List.map_cons, List.map_cons, List.map_cons, hf.fixes '!' rfl, hf.fixes '-' rfl]
    simp only [lexSymbol]
    simp [lexLiteral, lexAtom, Lexed.map, Token.map, Atom.map, hf.fixes '<' rfl, hf.fixes '!' rfl,
      hf.fixes '-' rfl]
  | case16 rest hmark =>
    rw [lexSymbol, lexLiteral_map hf hc]
    intro after hafter
    obtain ⟨more, rfl⟩ := hf.exists_of_map_eq_append ['!', '-', '-'] (by decide) hafter
    exact hmark more rfl
  | case17 after =>
    rw [List.map_cons, hf.fixes '|' rfl]
    simp only [lexSymbol]
    simp [lexLiteral, lexAtom, Lexed.map, Token.map, Atom.map, hf.fixes '|' rfl]
  | case18 rest hbar =>
    rw [lexSymbol, lexOperator_map hf hc]
    intro after hafter
    obtain ⟨more, rfl⟩ := hf.exists_of_map_eq_append ['|'] (by decide) hafter
    exact hbar more rfl
  | case19 => exact lexOperator_map hf hc _
  | case20 => exact lexOperator_map hf hc _
  | case21 => exact lexOperator_map hf hc _
  | case22 => exact lexOperator_map hf hc _
  | case23 =>
    rw [lexSymbol, lexLiteral_map hf hc]
    all_goals assumption

omit hf in
/-- Where no identifier starts, the character is ASCII. -/
theorem ascii_of_not_startsIdent {c : Char} {rest : List Char}
    (h : ¬startsIdent (c :: rest) = true) : c.toNat < 0x80 := by
  refine Nat.lt_of_not_le fun hc => h ?_
  rw [startsIdent_cons, if_neg (ne_of_nonAscii hc (by decide)), startsName_of_nonAscii hc, Bool.true_or]

/-- Neither a range nor a mark starts in a recolored text where none did before. -/
theorem StartsWord.map {c : Char} {rest : List Char} (h : StartsWord c rest) :
    StartsWord (f c) (rest.map f) := by
  obtain ⟨hspace, hrange, hmark⟩ := h
  refine ⟨by rw [hf.isSpace]; exact hspace, ?_, ?_⟩
  · rw [← List.map_cons, startsUnicodeRange_map hf]
    exact hrange
  · intro after hc hafter
    obtain ⟨more, rfl⟩ := hf.exists_of_map_eq_append ['-', '>'] (by decide) hafter
    exact hmark more ((hf.eq_ascii_iff '-' rfl).1 hc) rfl

/-- One lexeme of a recolored text. -/
theorem readToken_map {c : Char} {rest : List Char} (h : KeepsEscapes f (c :: rest)) :
    readToken (f c) (rest.map f) = (readToken c rest).map f := by
  rcases readToken_cases c rest with hspace | ⟨hspace, hrange⟩ | ⟨rfl, after, rfl⟩ | hword
  · rw [readToken_space hspace, readToken_space (by rw [hf.isSpace]; exact hspace),
      takeWhile_map_of hf.isSpace, dropWhile_map_of hf.isSpace]
    rfl
  · have hrange' : startsUnicodeRange (f c :: rest.map f) = true := by
      rw [← List.map_cons, startsUnicodeRange_map hf]
      exact hrange
    rw [readToken_range hspace hrange, readToken_range (by rw [hf.isSpace]; exact hspace) hrange',
      ← List.map_drop, readUnicodeRange_map hf]
    simp only [lexAtom, Lexed.map, Token.map, List.map_cons, List.map_nil, map_readUnicodeRange]
  · rw [List.map_cons, List.map_cons, hf.fixes '-' rfl, hf.fixes '>' rfl, readToken_mark, readToken_mark]
    simp [lexLiteral, lexAtom, Lexed.map, Token.map, Atom.map, hf.fixes '-' rfl, hf.fixes '>' rfl]
  · have hident := startsIdent_map hf (c :: rest)
    have hnumber := readNumber?_map hf (c :: rest)
    rw [List.map_cons] at hident hnumber
    rw [readToken_word hword, readToken_word (hword.map hf), hident]
    split
    · rw [← List.map_cons, lexIdent_map hf h]
    · next hstart =>
      have hc := ascii_of_not_startsIdent hstart
      rw [hnumber]
      rcases hread : readNumber? (c :: rest) with _ | ⟨numeral, after⟩
      · simp only [Option.map_none]
        rw [hf.ascii c hc, lexSymbol_map hf hc (h.of_suffix (List.suffix_cons c rest))]
      · simp only [Option.map_some]
        exact lexNumeric_map hf numeral (h.of_suffix (readNumber?_suffix hread))

/-- The tokens of a recolored text. -/
theorem scan_map {text : List Char} (h : KeepsEscapes f text) :
    scan (text.map f) = (scan text).map (Token.map f) := by
  fun_induction scan text with
  | case1 => simp [scan]
  | case2 c rest lexed ih =>
    have hsuffix : lexed.2 <:+ c :: rest :=
      (readToken_suffix c rest).trans (List.suffix_cons c rest)
    rw [List.map_cons, scan, readToken_map hf h, List.map_append, ← ih (h.of_suffix hsuffix)]
    rfl

end

end CssTemplate.Css
