import CssTemplate.Proofs.Css.Digits
import CssTemplate.Proofs.Css.Reread
import Mathlib

/-!
# Tokens, read back from their texts

A token is written, and then something else right after it. It comes back alone if it is of the form
that reading gives (`Token.Formed`), if its text spells it (`Token.isSteady`) and if it does not go on in
the text after it (`Token.goesOn`). At an end of a list its text is trimmed too, and may lose nothing but
the space after a code (`Token.startsFirm`, `Token.endsFirm`). This module has the marks and the names,
`CssTemplate.Proofs.Css.ReadBack` the other tokens and the theorem for all of them.
-/

namespace CssTemplate.Css

/-! ## The form of tokens -/

/-- The characters that open or close something, and the backslash. -/
def delimiters : List Char :=
  ['\\', '"', '\'', '(', ')', '[', ']', '{', '}']

/-- A character that no name, number, string or group starts with. -/
def isMark (c : Char) : Bool :=
  !isSpace c && !startsName c && !c.isDigit && !delimiters.contains c

/-- The literals of more than one character. -/
def longMarks : List (List Char) :=
  [['<', '!', '-', '-'], ['-', '-', '>'], ['|', '|'], ['|', '='], ['~', '='], ['^', '='], ['$', '='],
    ['*', '=']]

/-- A name as it can be read. -/
structure IsName (name : List Char) : Prop where
  ne_nil : name ≠ []
  null : '\x00' ∉ name

/-- A number as it can be read. -/
def IsNumber (numeral : List Char) : Prop :=
  ∃ sign whole fraction exponent, IsNumeral sign whole fraction exponent ∧
    numeral = sign ++ (whole ++ fraction) ++ exponent

/-- A name that is no identifier: it starts with a digit, or with a hyphen and a digit. -/
def StartsNumeric (name : List Char) : Prop :=
  ∃ d more, name = d :: more ∧ (d.isDigit = true ∨ d = '-' ∧ ∀ e ∈ more.head?, e.isDigit = true)

/-- An atom as it can be read. -/
def Atom.Formed : Atom → Prop
  | .space text => text ≠ [] ∧ ∀ c ∈ text, isSpace c = true
  | .literal text =>
    text = ['\\'] ∨ text ∈ longMarks ∨ ∃ c, text = [c] ∧ isMark c = true ∧ IsNormal [c]
  | .ident name => IsName name
  | .atKeyword name => IsName name
  | .hash name isIdent => IsName name ∧ (isIdent = false → StartsNumeric name)
  | .string value _ => '\x00' ∉ value
  | .url value _ => '\x00' ∉ value
  | .unicodeRange first last => first < 0x1000000 ∧ last < 0x1000000
  | .number numeral => IsNumber numeral
  | .percentage numeral => IsNumber numeral
  | .dimension numeral unit => IsNumber numeral ∧ IsName unit
  | .fault _ => True

/-- A token as it can be read. -/
def Token.Formed : Token → Prop
  | .atom a => a.Formed
  | .opening (.function name) => IsName name
  | .opening (.bracket _) => True
  | .closing _ => True

/-! ## Tokens that their texts spell -/

/-- A unit that is written with another letter. -/
def isRespelled : List Char → Bool
  | ['E'] => true
  | 'E' :: '-' :: _ => true
  | _ => false

/-- A unit that is read as an exponent after a number without one. -/
def startsExponent : List Char → Bool
  | e :: d :: _ => (e == 'e' || e == 'E') && d.isDigit
  | _ => false

/-- Whether a number is written with an exponent. -/
def hasExponent (numeral : List Char) : Bool :=
  numeral.any fun c => c == 'e' || c == 'E'

/-- Whether the text of a token spells it: it has a text, and it is not mistaken for something else. -/
def Token.isSteady : Token → Bool
  | .atom (.literal text) => text != ['\\']
  | .atom (.string _ closed) => closed
  | .atom (.url value closed) =>
    closed && value.all fun c => !isUrlForbidden c || ['"', '\'', '('].contains c
  | .atom (.dimension numeral unit) =>
    !isRespelled unit && (hasExponent numeral || !startsExponent unit)
  | .atom (.fault _) => false
  | _ => true

/-- Whether the text of a token does not start with a blank, which trimming takes away. -/
def Token.startsFirm (t : Token) : Bool :=
  t.text.head?.all fun c => !isBlank c

/-- Whether the text of a token does not end in a blank that trimming takes away. The space after a
code may go. -/
def Token.endsFirm : Token → Bool
  | .atom (.space _) => false
  | .atom (.literal text) => text.getLast?.all fun c => !isBlank c
  | .atom (.ident name) => isFirmName name
  | .atom (.atKeyword name) => isFirmName name
  | .atom (.hash name _) => isFirmName name
  | .atom (.dimension _ unit) => isFirmName unit
  | _ => true

/-- A token as it can be read, and that its text spells. -/
structure Token.Spelled (t : Token) : Prop where
  formed : t.Formed
  steady : t.isSteady = true

/-! ## Tokens that go on -/

/-- Whether a number without a sign starts here. -/
def startsDigits (text : List Char) : Bool :=
  text.head?.any Char.isDigit || (text.head? == some '.' && text.tail.head?.any Char.isDigit)

/-- Whether a literal goes on in the text after it. -/
def literalGoesOn (text after : List Char) : Bool :=
  match text with
  | ['@'] => startsIdent after
  | ['#'] => continuesName after
  | ['-'] => startsIdent ('-' :: after) || startsDigits after
  | ['+'] => startsDigits after
  | ['.'] => after.head?.any Char.isDigit
  | ['/'] => after.head? == some '*'
  | ['<'] => ['!', '-', '-'].isPrefixOf after
  | ['|'] => after.head? == some '|' || after.head? == some '='
  | [c] => ['~', '^', '$', '*'].contains c && after.head? == some '='
  | _ => false

/-- Whether a number goes on in the text after it, or becomes something else than a number. -/
def numberGoesOn (numeral after : List Char) : Bool :=
  startsIdent after || after.head?.any (fun c => c.isDigit || c == '%') ||
    (startsDigits after && !numeral.any fun c => ['.', 'e', 'E'].contains c)

/-- Whether a token goes on in the text after it. -/
def Token.goesOn : Token → List Char → Bool
  | .atom (.space _), after => after.head?.any isSpace
  | .atom (.literal text), after => literalGoesOn text after
  | .atom (.ident name), after =>
    continuesName after || after.head? == some '(' ||
      (name.length == 1 && startsUnicodeRange (name ++ after)) ||
      (name == ['-', '-'] && after.head? == some '>')
  | .atom (.atKeyword _), after => continuesName after
  | .atom (.hash _ _), after => continuesName after
  | .atom (.dimension _ _), after => continuesName after
  | .atom (.number numeral), after => numberGoesOn numeral after
  | .atom (.unicodeRange first last), after =>
    if first = last then continuesRange after else after.head?.any isHexDigit
  | .opening (.function name), after => isUrlName name && !startsQuoted after
  | _, _ => false

/-- Text that is read as a token, whatever it was written from, up to the rest. -/
def ReadBack (text : List Char) (t : Token) (rest : List Char) : Prop :=
  ∃ c more, text = c :: more ∧ readToken c (more ++ rest) = ([t], rest)

namespace ReadBack

variable {text rest : List Char}

/-- An atom that is read back is read as a component. -/
theorem readsTo {a : Atom} (h : ReadBack text (.atom a) rest) : ReadsTo (text ++ rest) rest [.atom a] := by
  obtain ⟨c, more, rfl, hread⟩ := h
  exact .atom hread

/-- In a canonical text, what follows a token that is read back is canonical. -/
theorem isCanonical {t : Token} (h : ReadBack text t rest) (hcanonical : isCanonical (text ++ rest) = true) :
    isCanonical rest = true := by
  obtain ⟨c, more, rfl, hread⟩ := h
  exact isCanonical_of_readToken hcanonical hread

end ReadBack

/-! ## Marks -/

section
variable {c : Char} {text name rest : List Char} {short : Bool}

/-- A mark is a character that starts no other token. -/
theorem isMark_iff : isMark c = true ↔
    isSpace c = false ∧ startsName c = false ∧ c.isDigit = false ∧ c ∉ delimiters := by
  simp [isMark, and_assoc]

/-- Where no digits start, there is no mantissa. -/
theorem readMantissa?_of_stop (h : startsDigits text = false) : readMantissa? text = none := by
  rw [startsDigits, Bool.or_eq_false_iff] at h
  obtain ⟨hhead, hpoint⟩ := h
  have hnone : digits text = [] ∧ afterDigits text = text := by
    cases text with
    | nil => exact ⟨rfl, rfl⟩
    | cons c text =>
      have hc : c.isDigit = false := hhead
      simp [digits, afterDigits, hc]
  by_cases hdot : ∃ more, text = '.' :: more
  · obtain ⟨more, rfl⟩ := hdot
    have hmore : digits more = [] := by
      cases more with
      | nil => rfl
      | cons c more =>
        have hc : c.isDigit = false := by simpa using hpoint
        simp [digits, hc]
    rw [readMantissa?_of_point hnone.2, hmore, hnone.1, if_pos List.isEmpty_nil,
      if_pos List.isEmpty_nil]
  · rw [readMantissa?_of_no_point, hnone.1, if_pos List.isEmpty_nil]
    rw [hnone.2]
    intro hhead
    obtain ⟨more, hmore⟩ := List.head?_eq_some_iff.1 hhead
    exact hdot ⟨more, hmore⟩

/-- Where no digits start behind a sign, there is no numeral. -/
theorem readNumber?_of_stop (h : startsDigits (readSign text).2 = false) : readNumber? text = none := by
  unfold Css.readNumber?
  rw [readMantissa?_of_stop h]

/-- A mark is a symbol, if it does not start an identifier or a number. -/
theorem readToken_of_isMark (hmark : isMark c = true) (hident : startsIdent (c :: rest) = false)
    (hnumber : readNumber? (c :: rest) = none) : readToken c rest = lexSymbol c rest := by
  obtain ⟨hspace, hname, -, -⟩ := isMark_iff.1 hmark
  have hword : StartsWord c rest := by
    refine ⟨hspace, startsUnicodeRange_of_ne ?_ ?_, ?_⟩
    · rintro rfl
      cases hname
    · rintro rfl
      cases hname
    · rintro after rfl rfl
      cases hident
  rw [readToken_word hword, if_neg (by simp [hident]), hnumber]

/-- A mark that is no hyphen starts no identifier. -/
theorem startsIdent_of_isMark (hmark : isMark c = true) (hhyphen : c ≠ '-') :
    startsIdent (c :: rest) = false := by
  obtain ⟨-, hname, -, hother⟩ := isMark_iff.1 hmark
  have hslash : c ≠ '\\' := fun h => hother (h ▸ .head _)
  rw [startsIdent_cons, if_neg hhyphen, hname, startsEscape_cons, beq_eq_false_iff_ne.2 hslash,
    Bool.false_and, Bool.or_false]

/-- A character that is no sign is left where it is. -/
theorem readSign_of_ne (hplus : c ≠ '+') (hhyphen : c ≠ '-') :
    readSign (c :: rest) = ([], c :: rest) :=
  readSign_of_isSign (.inl rfl) (by rintro d ⟨⟩; exact ⟨hplus, hhyphen⟩)

/-- A mark that is no sign, and no point before a digit, starts no numeral. -/
theorem readNumber?_of_isMark (hmark : isMark c = true) (hplus : c ≠ '+') (hhyphen : c ≠ '-')
    (hpoint : c = '.' → rest.head?.any Char.isDigit = false) : readNumber? (c :: rest) = none := by
  obtain ⟨-, -, hdigit, -⟩ := isMark_iff.1 hmark
  refine readNumber?_of_stop ?_
  rw [readSign_of_ne hplus hhyphen]
  by_cases hc : c = '.'
  · simpa [startsDigits, hc] using hpoint hc
  · simp [startsDigits, hdigit, hc]

/-- A mark with nothing behind it that goes on with it is a literal of its own. -/
theorem lexSymbol_of_isMark (hmark : isMark c = true) (hstop : literalGoesOn [c] rest = false) :
    lexSymbol c rest = lexLiteral [c] rest := by
  obtain ⟨-, -, -, hother⟩ := isMark_iff.1 hmark
  fun_cases lexSymbol c rest with
  | case1 rest hident =>
    rw [show literalGoesOn ['@'] rest = startsIdent rest from rfl, hident] at hstop
    cases hstop
  | case2 rest => rfl
  | case3 rest hname =>
    rw [show literalGoesOn ['#'] rest = continuesName rest from rfl, continuesName, hname] at hstop
    cases hstop
  | case4 rest => rfl
  | case5 => exact absurd (by decide) hother
  | case6 => exact absurd (by decide) hother
  | case7 => exact absurd (by decide) hother
  | case8 => exact absurd (by decide) hother
  | case9 => exact absurd (by decide) hother
  | case10 => exact absurd (by decide) hother
  | case11 => exact absurd (by decide) hother
  | case12 => exact absurd (by decide) hother
  | case13 => cases hstop
  | case14 rest => rfl
  | case15 after => cases hstop
  | case16 rest => rfl
  | case17 after => cases hstop
  | case18 rest =>
    refine lexOperator_of_no_equals fun hequals => ?_
    rw [show literalGoesOn ['|'] rest = (rest.head? == some '|' || rest.head? == some '=') from rfl,
      hequals] at hstop
    cases hstop
  | case19 rest => exact lexOperator_of_no_equals (by simpa [literalGoesOn] using hstop)
  | case20 rest => exact lexOperator_of_no_equals (by simpa [literalGoesOn] using hstop)
  | case21 rest => exact lexOperator_of_no_equals (by simpa [literalGoesOn] using hstop)
  | case22 rest => exact lexOperator_of_no_equals (by simpa [literalGoesOn] using hstop)
  | case23 rest => rfl

/-- A mark is read back where nothing goes on with it. -/
theorem readBack_mark (hmark : isMark c = true) (hstop : literalGoesOn [c] rest = false) :
    ReadBack [c] (.atom (.literal [c])) rest := by
  refine ⟨c, [], rfl, ?_⟩
  rw [List.nil_append]
  have hread : readToken c rest = lexSymbol c rest := by
    by_cases hhyphen : c = '-'
    · subst hhyphen
      rw [show literalGoesOn ['-'] rest = (startsIdent ('-' :: rest) || startsDigits rest) from rfl,
        Bool.or_eq_false_iff] at hstop
      exact readToken_of_isMark hmark hstop.1 (readNumber?_of_stop hstop.2)
    · have hident := @startsIdent_of_isMark c rest hmark hhyphen
      by_cases hplus : c = '+'
      · subst hplus
        exact readToken_of_isMark hmark hident (readNumber?_of_stop hstop)
      · refine readToken_of_isMark hmark hident (readNumber?_of_isMark hmark hplus hhyphen ?_)
        rintro rfl
        exact hstop
  rw [hread, lexSymbol_of_isMark hmark hstop]
  rfl

/-- A literal of several characters is read back whatever follows it. -/
theorem readBack_longMark (h : text ∈ longMarks) : ReadBack text (.atom (.literal text)) rest := by
  have hsymbol : ∀ {c : Char}, isMark c = true → c ∉ ['+', '-', '.'] → ∀ rest,
      readToken c rest = lexSymbol c rest := by
    intro c hmark hc rest
    simp only [List.mem_cons, List.not_mem_nil, or_false, not_or] at hc
    exact readToken_of_isMark hmark (startsIdent_of_isMark hmark hc.2.1)
      (readNumber?_of_isMark hmark hc.1 hc.2.1 fun h => absurd h hc.2.2)
  simp only [longMarks, List.mem_cons, List.not_mem_nil, or_false] at h
  rcases h with rfl | rfl | rfl | rfl | rfl | rfl | rfl | rfl
  · exact ⟨_, _, rfl, hsymbol (by decide) (by decide) _⟩
  · exact ⟨_, _, rfl, rfl⟩
  · exact ⟨_, _, rfl, hsymbol (by decide) (by decide) _⟩
  · exact ⟨_, _, rfl, hsymbol (by decide) (by decide) _⟩
  · exact ⟨_, _, rfl, hsymbol (by decide) (by decide) _⟩
  · exact ⟨_, _, rfl, hsymbol (by decide) (by decide) _⟩
  · exact ⟨_, _, rfl, hsymbol (by decide) (by decide) _⟩
  · exact ⟨_, _, rfl, hsymbol (by decide) (by decide) _⟩

/-- White space is read back where no more of it follows. -/
theorem readBack_space (hne : text ≠ []) (hspace : ∀ c ∈ text, isSpace c = true)
    (hstop : rest.head?.any isSpace = false) : ReadBack text (.atom (.space text)) rest := by
  obtain ⟨c, more, rfl⟩ := List.exists_cons_of_ne_nil hne
  obtain ⟨hc, hmore⟩ := List.forall_mem_cons.1 hspace
  have hrest : ∀ d ∈ rest.head?, isSpace d = false := by
    intro d hd
    rwa [Option.mem_def.1 hd] at hstop
  obtain ⟨hrun, hafter⟩ := takeWhile_dropWhile_append hmore hrest
  exact ⟨c, more, rfl, by rw [readToken_space hc, hrun, hafter]; rfl⟩

/-! ## Names -/

/-- A spelling of some name starts with a name character or a backslash. -/
theorem Spells.head (h : Spells short text name) (hname : name ≠ []) :
    ∃ c more, text = c :: more ∧ (isNameChar c = true ∨ c = '\\') := by
  cases h with
  | nil => exact absurd rfl hname
  | char hc _ => exact ⟨_, _, rfl, .inl hc⟩
  | escape _ _ _ => exact ⟨_, _, rfl, .inr rfl⟩
  | code _ _ => exact ⟨_, _, rfl, .inr rfl⟩
  | lastCode _ => exact ⟨_, _, rfl, .inr rfl⟩

/-- A character that names do not hold ends a spelling. -/
theorem Spells.eq_nil_of_head {after : List Char} (h : Spells short text name)
    (hc : isNameChar c = false) (hslash : c ≠ '\\') (heq : text ++ rest = c :: after) : name = [] := by
  by_contra hname
  obtain ⟨d, more, rfl, hd⟩ := h.head hname
  obtain ⟨rfl, -⟩ := List.cons.inj heq
  rcases hd with hd | rfl
  · rw [hd] at hc
    cases hc
  · exact hslash rfl

/-- A name character is no white space. -/
theorem isSpace_of_isNameChar (h : isNameChar c = true) : isSpace c = false := by
  have hspace : c ≠ ' ' := ne_of_isNameChar h rfl
  have hline : c ≠ '\n' := ne_of_isNameChar h rfl
  have htab : c ≠ '\t' := ne_of_isNameChar h rfl
  simp [isSpace, hspace, hline, htab]

/-- The start of a spelled name is not taken for something else. -/
theorem Spells.startsWord (h : Spells short text name) (hname : name ≠ [])
    (hstop : continuesName rest = false)
    (hrange : (name.length == 1 && startsUnicodeRange (name ++ rest)) = false)
    (hmark : (name == ['-', '-'] && rest.head? == some '>') = false) :
    ∃ c more, text = c :: more ∧ StartsWord c (more ++ rest) := by
  have hslash : ∀ more : List Char, StartsWord '\\' more := fun more =>
    ⟨rfl, startsUnicodeRange_of_ne (by decide) (by decide), fun _ h => absurd h (by decide)⟩
  cases h with
  | nil => exact absurd rfl hname
  | escape _ _ _ => exact ⟨_, _, rfl, hslash _⟩
  | code _ _ => exact ⟨_, _, rfl, hslash _⟩
  | lastCode _ => exact ⟨_, _, rfl, hslash _⟩
  | @char _ c text name hc htext =>
    refine ⟨c, text, rfl, isSpace_of_isNameChar hc, ?_, ?_⟩
    · by_contra hstarts
      rw [Bool.not_eq_false] at hstarts
      obtain ⟨d, after, hplus⟩ : ∃ d after, text ++ rest = '+' :: d :: after := by
        unfold startsUnicodeRange at hstarts
        split at hstarts
        · next heq => exact ⟨_, _, (List.cons.inj heq).2⟩
        · cases hstarts
      have hnil := htext.eq_nil_of_head (by decide) (by decide) hplus
      subst hnil
      rw [htext.eq_nil, List.nil_append] at hstarts
      rw [List.singleton_append, hstarts] at hrange
      cases hrange
    · rintro after rfl heq
      -- The second hyphen is part of the name, and so nothing is left for the bracket.
      cases htext with
      | nil =>
        rw [List.nil_append] at heq
        rw [heq] at hstop
        cases hstop
      | escape _ _ _ => cases heq
      | code _ _ => cases heq
      | lastCode _ => cases heq
      | @char _ d text name _ hmore =>
        obtain ⟨rfl, -⟩ := List.cons.inj heq
        have htail : text ++ rest = '>' :: after := (List.cons.inj heq).2
        have hnil := hmore.eq_nil_of_head (c := '>') (by decide) (by decide) htail
        subst hnil
        rw [hmore.eq_nil, List.nil_append] at htail
        rw [htail] at hmark
        cases hmark

/-- A spelled name that starts an identifier is read as one. -/
theorem Spells.readToken (h : Spells short text name) (hname : name ≠ [])
    (hident : startsIdent (text ++ rest) = true) (hstop : continuesName rest = false)
    (hspace : short = true → ∀ d ∈ rest.head?, isSpace d = false)
    (hrange : (name.length == 1 && startsUnicodeRange (name ++ rest)) = false)
    (hmark : (name == ['-', '-'] && rest.head? == some '>') = false) :
    ∃ c more, text = c :: more ∧ Css.readToken c (more ++ rest) = lexIdent (text ++ rest) ∧
      Css.readName (text ++ rest) = (name, rest) := by
  obtain ⟨c, more, rfl, hword⟩ := h.startsWord hname hstop hrange hmark
  refine ⟨c, more, rfl, ?_, h.readName hstop hspace⟩
  rw [readToken_word hword, ← List.cons_append, if_pos hident]

/-! ## Trimmed texts -/

/-- Trimming the end stops before a character that is not blank. -/
theorem trimEnd_cons_of_firm (hc : isBlank c = false) (text : List Char) :
    trimEnd isBlank (c :: text) = c :: trimEnd isBlank text := by
  rw [trimEnd_cons]
  split
  · next hnil => rw [if_neg (by simp [hc]), hnil]
  · rfl

/-- What follows a hexadecimal digit does not matter for the start of an identifier before it. -/
theorem startsIdent_append_hex {d : Char} (hd : isHexDigit d = true) (front a b : List Char) :
    startsIdent (front ++ d :: a) = startsIdent (front ++ d :: b) := by
  have hslash : d ≠ '\\' := by
    rintro rfl
    cases hd
  have hescape : ∀ more, startsEscape (d :: more) = false := fun more => by
    rw [startsEscape_cons, beq_eq_false_iff_ne.2 hslash, Bool.false_and]
  rcases front with _ | ⟨c, _ | ⟨e, front⟩⟩
  · have hhyphen : d ≠ '-' := by
      rintro rfl
      cases hd
    simp only [List.nil_append, startsIdent_cons, if_neg hhyphen, hescape]
  · simp only [List.cons_append, List.nil_append, startsIdent_cons, startsEscape_cons c, hescape,
      List.head?_cons]
  · have hhead : (front ++ d :: a).head? = (front ++ d :: b).head? := by cases front <;> rfl
    simp only [List.cons_append, startsIdent_cons, startsEscape_cons, List.head?_cons, hhead]

/-- A text that is the last one of a list is trimmed. -/
def shortened (short : Bool) (text : List Char) : List Char :=
  if short then trimEnd isBlank text else text

/-- A shortened spelling is one, and starts an identifier where the whole does. -/
theorem Spells.shortened (h : Spells false text name) (hname : name ≠ [])
    (hfirm : short = true → isFirmName name = true) :
    Spells short (shortened short text) name ∧
      ∀ rest, startsIdent (Css.shortened short text ++ rest) = startsIdent (text ++ rest) := by
  cases short with
  | false => exact ⟨h, fun _ => rfl⟩
  | true =>
    obtain ⟨front, d, hd, hspells, hlast⟩ := h.exists_last rfl hname (hfirm rfl)
    rcases hlast with rfl | ⟨hhex, rfl⟩
    · rw [Css.shortened, if_pos rfl, (trimEnd_concat front hd).1]
      exact ⟨hspells, fun _ => rfl⟩
    · rw [Css.shortened, if_pos rfl, (trimEnd_concat front hd).2]
      refine ⟨hspells, fun rest => ?_⟩
      simpa using startsIdent_append_hex hhex front rest (' ' :: rest)

/-- A text that ends in something firm is not shortened. -/
theorem shortened_of_last (hlast : ∀ d ∈ text.getLast?, isBlank d = false) (short : Bool) :
    shortened short text = text := by
  cases short with
  | false => rfl
  | true =>
    rcases List.eq_nil_or_concat' text with rfl | ⟨front, d, rfl⟩
    · rfl
    · exact (trimEnd_concat front (hlast d (by simp))).1

/-- Shortening stops before a character that is not blank. -/
theorem shortened_cons (hc : isBlank c = false) (text : List Char) (short : Bool) :
    shortened short (c :: text) = c :: shortened short text := by
  cases short with
  | false => rfl
  | true => exact trimEnd_cons_of_firm hc text

/-- Shortening does not go beyond a front whose last character is not blank. -/
theorem shortened_append {front : List Char} (hne : front ≠ [])
    (hlast : ∀ d ∈ front.getLast?, isBlank d = false) (text : List Char) (short : Bool) :
    shortened short (front ++ text) = front ++ shortened short text := by
  cases short with
  | false => rfl
  | true => exact trimEnd_append_of_last hne hlast text

/-! ## Identifiers -/

/-- An identifier is read back where it does not go on, shortened or not. -/
theorem readBack_ident (hname : name ≠ []) (hfirm : short = true → isFirmName name = true)
    (hstop : (Token.atom (.ident name)).goesOn rest = false)
    (hspace : short = true → ∀ d ∈ rest.head?, isSpace d = false) :
    ReadBack (shortened short (identifierText name)) (.atom (.ident name)) rest := by
  simp only [Token.goesOn, Bool.or_eq_false_iff] at hstop
  obtain ⟨⟨⟨hname', hopen⟩, hrange⟩, hmark⟩ := hstop
  obtain ⟨hspells, hstarts⟩ := (spells_identifierText name).shortened hname hfirm
  have hident : startsIdent (shortened short (identifierText name) ++ rest) = true := by
    rw [hstarts, startsIdent_identifierText hname]
  obtain ⟨c, more, htext, hread, hreadName⟩ :=
    hspells.readToken hname hident hname' hspace hrange hmark
  refine ⟨c, more, htext, ?_⟩
  rw [hread, lexIdent_of_no_open, hreadName]
  · rfl
  · rw [hreadName]
    simpa using hopen

/-- The opening of a function is read back where it does not go on. -/
theorem readBack_function (hname : name ≠ [])
    (hstop : (Token.opening (.function name)).goesOn rest = false) :
    ReadBack (identifierText name ++ ['(']) (.opening (.function name)) rest := by
  have hident : startsIdent (identifierText name ++ '(' :: rest) = true :=
    startsIdent_identifierText hname _
  have hrange : (name.length == 1 && startsUnicodeRange (name ++ '(' :: rest)) = false := by
    rcases name with _ | ⟨c, _ | ⟨d, name⟩⟩
    · rfl
    · rfl
    · rfl
  obtain ⟨c, more, htext, hread, hreadName⟩ := (spells_identifierText name).readToken hname hident rfl
    (fun h => by cases h) hrange (by simp)
  refine ⟨c, more ++ ['('], by rw [htext]; rfl, ?_⟩
  have hopen : (readName (identifierText name ++ '(' :: rest)).2 = '(' :: rest := by rw [hreadName]
  have hurl : (isUrlName name && !startsQuoted rest) = false := hstop
  rw [List.append_assoc, List.singleton_append, hread, lexIdent_of_open hopen, hreadName,
    if_neg (by simp [hurl])]

/-- An at-keyword is read back where its name does not go on, shortened or not. -/
theorem readBack_atKeyword (hname : name ≠ []) (hfirm : short = true → isFirmName name = true)
    (hstop : continuesName rest = false)
    (hspace : short = true → ∀ d ∈ rest.head?, isSpace d = false) :
    ReadBack (shortened short ('@' :: identifierText name)) (.atom (.atKeyword name)) rest := by
  obtain ⟨hspells, hstarts⟩ := (spells_identifierText name).shortened hname hfirm
  have hident : startsIdent (shortened short (identifierText name) ++ rest) = true := by
    rw [hstarts, startsIdent_identifierText hname]
  refine ⟨'@', _, shortened_cons (by decide) _ short, ?_⟩
  rw [readToken_symbol (by decide)]
  simp only [lexSymbol, hident, if_true, hspells.readName hstop hspace]
  rfl

/-! ## Hashes -/

/-- A digit is none of the characters that are no digits. -/
theorem ne_of_isDigit {a : Char} (hc : c.isDigit = true) (ha : a.isDigit = false) : c ≠ a := by
  rintro rfl
  rw [hc] at ha
  cases ha

/-- A digit starts no name. -/
theorem startsName_of_isDigit (h : c.isDigit = true) : startsName c = false := by
  by_contra hname
  rw [Bool.not_eq_false] at hname
  exact ne_of_isDigit h (isDigit_of_startsName hname) rfl

/-- At the spelling of some name a name goes on. -/
theorem Spells.continuesName (h : Spells short text name) (hname : name ≠ []) (rest : List Char) :
    continuesName (text ++ rest) = true := by
  have hescape : ∀ {c : Char} {more : List Char}, c ≠ '\n' →
      Css.continuesName ('\\' :: c :: more) = true := by
    intro c more hc
    rw [Css.continuesName, startsEscape_cons]
    simp [hc]
  cases h with
  | nil => exact absurd rfl hname
  | char hc _ => simp [Css.continuesName, hc]
  | escape _ hcode _ => exact hescape fun h => hcode (h ▸ .head _)
  | code hdigits _ =>
    obtain ⟨d, more, rfl, hd⟩ := hdigits.head_ne
    exact hescape hd
  | lastCode hdigits =>
    obtain ⟨d, more, rfl, hd⟩ := hdigits.head_ne
    exact hescape hd

/-- A name that starts like a number starts no identifier. -/
theorem StartsNumeric.startsIdent (h : StartsNumeric name) (hstop : Css.continuesName rest = false) :
    startsIdent (nameText name ++ rest) = false := by
  have hdigit : ∀ {d : Char} {more : List Char}, d.isDigit = true →
      Css.startsIdent (d :: more) = false ∧ Css.startsIdent ('-' :: d :: more) = false := by
    intro d more hd
    have hslash : d ≠ '\\' := ne_of_isDigit hd rfl
    have hhyphen : d ≠ '-' := ne_of_isDigit hd rfl
    simp [startsIdent_cons, startsEscape_cons, startsName_of_isDigit hd, hslash, hhyphen]
  have hchar : ∀ {d : Char} {more : List Char}, d.isDigit = true →
      nameText (d :: more) = d :: nameText more := by
    intro d more hd
    simp [nameText, nameCharText, isNameChar, hd]
  obtain ⟨d, more, rfl, hd | ⟨rfl, hmore⟩⟩ := h
  · rw [hchar hd]
    exact (hdigit hd).1
  · have hhyphen : nameText ('-' :: more) = '-' :: nameText more := rfl
    cases more with
    | nil =>
      rw [Css.continuesName, Bool.or_eq_false_iff] at hstop
      rw [hhyphen, List.cons_append, startsIdent_cons, if_pos rfl]
      cases rest with
      | nil => rfl
      | cons e rest =>
        have he : isNameChar e = false := hstop.1
        simp only [isNameChar, Bool.or_eq_false_iff] at he
        simpa [nameText, he.1.1, he.2] using hstop.2
    | cons e more =>
      rw [hhyphen, hchar (hmore e rfl)]
      exact (hdigit (hmore e rfl)).2

/-- A hash is read back where its name does not go on, shortened or not. -/
theorem readBack_hash {isIdent : Bool} (hname : name ≠ [])
    (hnumeric : isIdent = false → StartsNumeric name) (hfirm : short = true → isFirmName name = true)
    (hstop : continuesName rest = false)
    (hspace : short = true → ∀ d ∈ rest.head?, isSpace d = false) :
    ReadBack (shortened short ('#' :: (if isIdent then identifierText name else nameText name)))
      (.atom (.hash name isIdent)) rest := by
  have htext : Spells false (if isIdent then identifierText name else nameText name) name := by
    split
    · exact spells_identifierText name
    · exact spells_nameText name
  have hident : startsIdent ((if isIdent then identifierText name else nameText name) ++ rest) =
      isIdent := by
    cases isIdent with
    | true => exact startsIdent_identifierText hname rest
    | false => exact (hnumeric rfl).startsIdent hstop
  obtain ⟨hspells, hstarts⟩ := htext.shortened hname hfirm
  rw [← hstarts] at hident
  have hmark : isMark '#' = true := by decide
  refine ⟨'#', _, shortened_cons (by decide) _ short, ?_⟩
  rw [readToken_of_isMark hmark (startsIdent_of_isMark hmark (by decide))
    (readNumber?_of_isMark hmark (by decide) (by decide) fun h => absurd h (by decide))]
  have hgoes := hspells.continuesName hname rest
  rw [Css.continuesName] at hgoes
  simp only [lexSymbol, hgoes, if_true, hspells.readName hstop hspace, hident]
  rfl

end

end CssTemplate.Css
