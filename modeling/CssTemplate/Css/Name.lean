import CssTemplate.Text.Blank
import CssTemplate.Text.Numeral

/-!
# CSS names

The characters of CSS names, the escapes inside them, `readName`, which takes the longest name
at the front of a text, and `nameText` and `identifierText`, which write a name so that it can
be read again. A read never lengthens the rest (`length_readEscape_le`, `length_readName_le`).
-/

namespace CssTemplate.Css

/-- CSS white space, after line ends have been normalized. -/
def isSpace (c : Char) : Bool :=
  c == ' ' || c == '\n' || c == '\t'

/-- A letter, an underscore or any character outside ASCII. -/
def startsName (c : Char) : Bool :=
  c.isAlpha || c == '_' || decide (0x7F < c.toNat)

/-- A character of a name that needs no escape. -/
def isNameChar (c : Char) : Bool :=
  startsName c || c.isDigit || c == '-'

/-- Whether a text starts with a backslash that a line end does not follow. -/
def startsEscape : List Char → Bool
  | '\\' :: '\n' :: _ => false
  | '\\' :: _ => true
  | _ => false

/-- Whether an identifier starts here. -/
def startsIdent : List Char → Bool
  | [] => false
  | '-' :: rest =>
    match rest with
    | [] => false
    | c :: _ => startsName c || c == '-' || startsEscape rest
  | c :: rest => startsName c || startsEscape (c :: rest)

/-! ## Escapes -/

/-- The replacement character, which stands for what cannot be decoded. -/
def replacement : Char :=
  '\uFFFD'

/-- The character that a numeric escape names: the replacement character for zero and for
numbers that are no Unicode scalar value. A text here has no place for a lone surrogate, so an escape of
one is such a number too. -/
def escapedChar (code : Nat) : Char :=
  if code ≠ 0 ∧ code.isValidChar then Char.ofNat code else replacement

/-- At most `limit` hexadecimal digits at the front of a text, and the rest. -/
def spanHex : Nat → List Char → List Char × List Char
  | 0, text => ([], text)
  | _ + 1, [] => ([], [])
  | limit + 1, c :: rest =>
    if isHexDigit c then
      let more := spanHex limit rest
      (c :: more.1, more.2)
    else ([], c :: rest)

/-- A text without one white-space character at its front, if there is one. -/
def skipOneSpace : List Char → List Char
  | [] => []
  | c :: rest => if isSpace c then rest else c :: rest

/-- The character of an escape, read after its backslash, and the rest: one to six
hexadecimal digits with an optional white-space character, or the next character itself. At
the end of the input the escape stands for the replacement character. -/
def readEscape (text : List Char) : Char × List Char :=
  match spanHex 6 text with
  | ([], _) =>
    match text with
    | [] => (replacement, [])
    | c :: rest => (c, rest)
  | (digits, rest) => (escapedChar (hexNumber digits), skipOneSpace rest)

/-- Hexadecimal digits leave no more than there was. -/
theorem length_spanHex_le : ∀ (limit : Nat) (text : List Char),
    (spanHex limit text).2.length ≤ text.length
  | 0, _ => Nat.le_refl _
  | _ + 1, [] => Nat.le_refl _
  | limit + 1, c :: rest => by
    rw [spanHex]
    split
    · exact Nat.le_succ_of_le (length_spanHex_le limit rest)
    · exact Nat.le_refl _

/-- A skipped white space leaves no more than there was. -/
theorem length_skipOneSpace_le (text : List Char) :
    (skipOneSpace text).length ≤ text.length := by
  cases text with
  | nil => exact Nat.le_refl _
  | cons c rest => rw [skipOneSpace]; split <;> simp

/-- An escape leaves no more than there was. -/
theorem length_readEscape_le (text : List Char) :
    (readEscape text).2.length ≤ text.length := by
  unfold readEscape
  split
  · split <;> simp
  · next digits rest _ h =>
    have h2 : rest = (spanHex 6 text).2 := by rw [h]
    exact Nat.le_trans (length_skipOneSpace_le rest) (h2 ▸ length_spanHex_le 6 text)

/-! ## Reading a name -/

/-- The longest name at the front of a text, with its escapes decoded, and the rest. -/
def readName : List Char → List Char × List Char
  | [] => ([], [])
  | c :: rest =>
    if isNameChar c then
      let more := readName rest
      (c :: more.1, more.2)
    else if startsEscape (c :: rest) then
      let escape := readEscape rest
      let more := readName escape.2
      (escape.1 :: more.1, more.2)
    else ([], c :: rest)
termination_by text => text.length
decreasing_by
  · simp
  · exact Nat.lt_succ_of_le (length_readEscape_le rest)

/-- A name leaves no more than there was. -/
theorem length_readName_le (text : List Char) : (readName text).2.length ≤ text.length := by
  fun_induction readName text with
  | case1 => exact Nat.le_refl _
  | case2 c rest _ _ ih => exact Nat.le_succ_of_le ih
  | case3 c rest _ _ _ _ ih =>
    exact Nat.le_succ_of_le (Nat.le_trans ih (length_readEscape_le rest))
  | case4 => exact Nat.le_refl _

/-! ## Writing a name -/

/-- A line end as an escape, any other character after a backslash. -/
def escapeText (c : Char) : List Char :=
  if c = '\n' then ['\\', 'A', ' ']
  else if c = '\r' then ['\\', 'D', ' ']
  else if c = '\x0c' then ['\\', 'C', ' ']
  else ['\\', c]

/-- One character of a name, escaped where it has to be. -/
def nameCharText (c : Char) : List Char :=
  if isNameChar c then [c] else escapeText c

/-- A name with its escapes. -/
def nameText (name : List Char) : List Char :=
  name.flatMap nameCharText

/-- The first character of an identifier, where a digit has to be escaped too. -/
def firstCharText (c : Char) : List Char :=
  if startsName c then [c]
  else if c.isDigit then '\\' :: (hexUpper 1 c.toNat ++ [' '])
  else escapeText c

/-- An identifier with its escapes. A leading hyphen is kept, a hyphen alone is escaped, and
after two hyphens any name may follow. -/
def identifierText : List Char → List Char
  | [] => []
  | ['-'] => ['\\', '-']
  | '-' :: '-' :: rest => '-' :: '-' :: nameText rest
  | '-' :: c :: rest => '-' :: (firstCharText c ++ nameText rest)
  | c :: rest => firstCharText c ++ nameText rest

end CssTemplate.Css
