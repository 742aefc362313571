import CssTemplate.Css.Component
import CssTemplate.Css.Delimited
import CssTemplate.Css.Numeral

/-!
# Reading tokens

`readToken` takes one lexeme off the front of a text. It yields at most two tokens: a comment
yields none, and a string or URL that breaks off at the end of the input is followed by its
fault. `scan` repeats it, and `Component.parse` normalizes the input, scans it and nests the
tokens. That a step leaves a shorter rest is `length_readToken_le`.
-/

namespace CssTemplate.Css

/-! ## Normalizing the input -/

/-- Line ends written in two characters become one, and so do carriage returns and form
feeds; the null character becomes the replacement character. -/
def normalize : List Char → List Char
  | [] => []
  | '\r' :: '\n' :: rest => '\n' :: normalize rest
  | c :: rest =>
    (if c = '\r' || c = '\x0c' then '\n' else if c.toNat = 0 then replacement else c) ::
      normalize rest

/-! ## Unicode ranges -/

/-- Whether a Unicode range starts here: `U+` before a hexadecimal digit or a question mark. -/
def startsUnicodeRange : List Char → Bool
  | u :: '+' :: c :: _ => (u == 'U' || u == 'u') && (isHexDigit c || c == '?')
  | _ => false

/-- At most `limit` question marks are counted; the rest follows them. -/
def spanQuestionMarks : Nat → List Char → Nat × List Char
  | limit + 1, '?' :: rest =>
    let more := spanQuestionMarks limit rest
    (more.1 + 1, more.2)
  | _, text => (0, text)

/-- A Unicode range, read after `U+`. Question marks stand for any digit, so they give the
range from zeros to Fs; otherwise a second number may follow a hyphen. -/
def readUnicodeRange (text : List Char) : Atom × List Char :=
  let first := spanHex 6 text
  let marks := spanQuestionMarks (6 - first.1.length) first.2
  if marks.1 ≠ 0 then
    (.unicodeRange (hexNumber (first.1 ++ List.replicate marks.1 '0'))
      (hexNumber (first.1 ++ List.replicate marks.1 'F')), marks.2)
  else
    match first.2 with
    | '-' :: c :: rest =>
      if isHexDigit c then
        let last := spanHex 6 (c :: rest)
        (.unicodeRange (hexNumber first.1) (hexNumber last.1), last.2)
      else (.unicodeRange (hexNumber first.1) (hexNumber first.1), first.2)
    | _ => (.unicodeRange (hexNumber first.1) (hexNumber first.1), first.2)

/-! ## Lexemes -/

/-- The tokens of one lexeme, and the rest of the text. -/
abbrev Lexed := List Token × List Char

/-- A single atom and the rest. -/
def lexAtom (a : Atom) (rest : List Char) : Lexed :=
  ([.atom a], rest)

/-- A literal and the rest. -/
def lexLiteral (text rest : List Char) : Lexed :=
  lexAtom (.literal text) rest

/-- Whether a name is `url`, in any letter case. -/
def isUrlName (name : List Char) : Bool :=
  name.map Char.toLower == ['u', 'r', 'l']

/-- Whether the first character that is not white space is a quote. -/
def startsQuoted (text : List Char) : Bool :=
  match text.dropWhile isSpace with
  | c :: _ => c == '"' || c == '\''
  | [] => false

/-- The tokens of an unquoted URL. -/
def lexUrl (text : List Char) : Lexed :=
  let url := readUrl text
  match url.ending with
  | .closed => lexAtom (.url url.value true) url.rest
  | .endOfInput => ([.atom (.url url.value false), .atom (.fault .openUrl)], url.rest)
  | .bad => lexAtom (.fault .badUrl) url.rest

/-- An identifier, or what its opening bracket makes of it: an unquoted URL or a function. -/
def lexIdent (text : List Char) : Lexed :=
  let name := readName text
  match name.2 with
  | '(' :: rest =>
    if isUrlName name.1 && !startsQuoted rest then lexUrl rest
    else ([.opening (.function name.1)], rest)
  | rest => lexAtom (.ident name.1) rest

/-- A number, with what its unit makes of it. -/
def lexNumeric (numeral rest : List Char) : Lexed :=
  if startsIdent rest then
    let unit := readName rest
    lexAtom (.dimension numeral unit.1) unit.2
  else
    match rest with
    | '%' :: after => lexAtom (.percentage numeral) after
    | _ => lexAtom (.number numeral) rest

/-- The tokens of a string, read after its quote. -/
def lexString (quote : Char) (text : List Char) : Lexed :=
  let string := readString quote text
  match string.ending with
  | .closed => lexAtom (.string string.value true) string.rest
  | .endOfInput => ([.atom (.string string.value false), .atom (.fault .openString)], string.rest)
  | .bad => lexAtom (.fault .badString) string.rest

/-- The text after a comment, read after its opening; nothing when the comment is open. -/
def afterComment : List Char → List Char
  | [] => []
  | '*' :: '/' :: rest => rest
  | _ :: rest => afterComment rest

/-- An operator character, joined with an equals sign that follows it. -/
def lexOperator (c : Char) (rest : List Char) : Lexed :=
  match rest with
  | '=' :: after => lexLiteral [c, '='] after
  | _ => lexLiteral [c] rest

/-- A lexeme that starts with neither white space, an identifier nor a number. -/
def lexSymbol (c : Char) (rest : List Char) : Lexed :=
  match c with
  | '@' =>
    if startsIdent rest then
      let name := readName rest
      lexAtom (.atKeyword name.1) name.2
    else lexLiteral ['@'] rest
  | '#' =>
    if (rest.head?.any isNameChar) || startsEscape rest then
      let name := readName rest
      lexAtom (.hash name.1 (startsIdent rest)) name.2
    else lexLiteral ['#'] rest
  | '{' => ([.opening (.bracket .curly)], rest)
  | '[' => ([.opening (.bracket .square)], rest)
  | '(' => ([.opening (.bracket .round)], rest)
  | '}' => ([.closing .curly], rest)
  | ']' => ([.closing .square], rest)
  | ')' => ([.closing .round], rest)
  | '"' => lexString '"' rest
  | '\'' => lexString '\'' rest
  | '/' =>
    match rest with
    | '*' :: after => ([], afterComment after)
    | _ => lexLiteral ['/'] rest
  | '<' =>
    match rest with
    | '!' :: '-' :: '-' :: after => lexLiteral ['<', '!', '-', '-'] after
    | _ => lexLiteral ['<'] rest
  | '|' =>
    match rest with
    | '|' :: after => lexLiteral ['|', '|'] after
    | _ => lexOperator '|' rest
  | '~' => lexOperator '~' rest
  | '^' => lexOperator '^' rest
  | '$' => lexOperator '$' rest
  | '*' => lexOperator '*' rest
  | _ => lexLiteral [c] rest

/-- One lexeme at the front of a text with first character `c`. White space, Unicode ranges,
`-->`, identifiers and numbers are tried in this order. -/
def readToken (c : Char) (rest : List Char) : Lexed :=
  if isSpace c then lexAtom (.space (c :: rest.takeWhile isSpace)) (rest.dropWhile isSpace)
  else if startsUnicodeRange (c :: rest) then
    let range := readUnicodeRange (rest.drop 1)
    lexAtom range.1 range.2
  else
    match c, rest with
    | '-', '-' :: '>' :: after => lexLiteral ['-', '-', '>'] after
    | _, _ =>
      if startsIdent (c :: rest) then lexIdent (c :: rest)
      else
        match readNumber? (c :: rest) with
        | some (numeral, after) => lexNumeric numeral after
        | none => lexSymbol c rest

/-! ## A step shortens the rest -/

/-- A run of question marks leaves no more than there was. -/
theorem length_spanQuestionMarks_le (limit : Nat) (text : List Char) :
    (spanQuestionMarks limit text).2.length ≤ text.length := by
  fun_induction spanQuestionMarks limit text with
  | case1 limit rest _ ih => exact Nat.le_succ_of_le ih
  | case2 => exact Nat.le_refl _

/-- A Unicode range leaves no more than there was. -/
theorem length_readUnicodeRange_le (text : List Char) :
    (readUnicodeRange text).2.length ≤ text.length := by
  have h1 := length_spanHex_le 6 text
  have h2 := length_spanQuestionMarks_le (6 - (spanHex 6 text).1.length) (spanHex 6 text).2
  unfold readUnicodeRange
  simp only
  split
  · exact Nat.le_trans h2 h1
  · split
    · next c rest h =>
      split
      · have h3 := length_spanHex_le 6 (c :: rest)
        rw [h] at h1
        simp only [List.length_cons] at h1 h3 ⊢
        omega
      · exact h1
    · exact h1

/-- The lexeme of a URL leaves no more than there was. -/
theorem length_lexUrl_le (text : List Char) : (lexUrl text).2.length ≤ text.length := by
  have h := length_readUrl_le text
  unfold lexUrl
  simp only
  split <;> exact h

/-- The lexeme of a string leaves no more than there was. -/
theorem length_lexString_le (quote : Char) (text : List Char) :
    (lexString quote text).2.length ≤ text.length := by
  have h := length_readString_le quote text
  unfold lexString
  simp only
  split <;> exact h

/-- A comment leaves no more than there was. -/
theorem length_afterComment_le (text : List Char) :
    (afterComment text).length ≤ text.length := by
  fun_induction afterComment text with
  | case1 => exact Nat.le_refl _
  | case2 => simp only [List.length_cons]; omega
  | case3 c rest _ ih => exact Nat.le_succ_of_le ih

/-- The lexeme of an operator leaves no more than follows its first character. -/
theorem length_lexOperator_le (c : Char) (rest : List Char) :
    (lexOperator c rest).2.length ≤ rest.length := by
  unfold lexOperator
  split <;> simp [lexLiteral, lexAtom]

/-- The lexeme of a numeral leaves no more than follows the numeral. -/
theorem length_lexNumeric_le (numeral rest : List Char) :
    (lexNumeric numeral rest).2.length ≤ rest.length := by
  unfold lexNumeric
  split
  · exact length_readName_le rest
  · split <;> simp [lexAtom]

/-- An identifier takes at least its first character. -/
theorem length_readName_lt {c : Char} {rest : List Char} (h : startsIdent (c :: rest) = true) :
    (readName (c :: rest)).2.length ≤ rest.length := by
  rw [readName]
  split
  · exact length_readName_le rest
  · next hn =>
    split
    · exact Nat.le_trans (length_readName_le _) (length_readEscape_le rest)
    · next he =>
      exfalso
      unfold startsIdent at h
      split at h
      · contradiction
      · next heq => cases heq; simp [isNameChar] at hn
      · next heq =>
        cases heq
        simp only [Bool.or_eq_true] at h
        rcases h with h | h
        · simp [isNameChar, h] at hn
        · exact he h

/-- The lexeme that an identifier starts takes at least one character. -/
theorem length_lexIdent_le {c : Char} {rest : List Char} (h : startsIdent (c :: rest) = true) :
    (lexIdent (c :: rest)).2.length ≤ rest.length := by
  have hn := length_readName_lt h
  unfold lexIdent
  simp only
  split
  · next after ha =>
    rw [ha, List.length_cons] at hn
    split
    · exact Nat.le_trans (length_lexUrl_le after) (Nat.le_of_succ_le hn)
    · exact Nat.le_of_succ_le hn
  · exact hn

/-- The lexeme of any other character leaves no more than follows it. -/
theorem length_lexSymbol_le (c : Char) (rest : List Char) :
    (lexSymbol c rest).2.length ≤ rest.length := by
  have hn := length_readName_le rest
  have hr : rest.length ≤ rest.length := Nat.le_refl _
  unfold lexSymbol
  split
  · split
    · exact hn
    · exact hr
  · split
    · exact hn
    · exact hr
  · exact hr
  · exact hr
  · exact hr
  · exact hr
  · exact hr
  · exact hr
  · exact length_lexString_le _ _
  · exact length_lexString_le _ _
  · split
    · next after => exact Nat.le_succ_of_le (length_afterComment_le after)
    · exact hr
  · split
    · simp only [lexLiteral, lexAtom, List.length_cons]; omega
    · exact hr
  · split
    · simp [lexLiteral, lexAtom]
    · exact length_lexOperator_le _ _
  · exact length_lexOperator_le _ _
  · exact length_lexOperator_le _ _
  · exact length_lexOperator_le _ _
  · exact length_lexOperator_le _ _
  · exact hr

/-- Every lexeme takes at least one character, so the scanner ends. -/
theorem length_readToken_le (c : Char) (rest : List Char) :
    (readToken c rest).2.length ≤ rest.length := by
  unfold readToken
  split
  · exact length_dropWhile_le _ _
  · split
    · exact Nat.le_trans (length_readUnicodeRange_le _) (by simp)
    · split
      · simp only [lexLiteral, lexAtom, List.length_cons]; omega
      · split
        · next h => exact length_lexIdent_le h
        · split
          · next numeral after h =>
            have h1 := length_of_readNumber? h
            have h2 := length_lexNumeric_le numeral after
            rw [List.length_cons] at h1
            omega
          · exact length_lexSymbol_le c rest

/-! ## Scanning -/

/-- All tokens of a normalized text. -/
def scan : List Char → List Token
  | [] => []
  | c :: rest =>
    let lexed := readToken c rest
    lexed.1 ++ scan lexed.2
termination_by text => text.length
decreasing_by exact Nat.lt_succ_of_le (length_readToken_le c rest)

/-- The component values of a text. -/
def Component.parse (css : List Char) : List Component :=
  Component.ofTokens (scan (normalize css))

end CssTemplate.Css
