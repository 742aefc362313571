import CssTemplate.Css.Name

/-!
# Strings and URLs

Both run up to a closing character, and both can break off: a string at a line end, a URL at a
character that it may not hold, either at the end of the input. `readString` and `readUrl`
return the value with its escapes decoded, how the reading ended, and the rest; the rest is
never longer than the text. `stringText` and `urlText` write the values back.
-/

namespace CssTemplate.Css

/-- How the reading of a delimited value ended. -/
inductive Ending where
  /-- At its closing character. -/
  | closed
  /-- At the end of the input. -/
  | endOfInput
  /-- At something that the value may not hold. -/
  | bad
  deriving DecidableEq, Repr, Inhabited

/-- A delimited value that has been read. -/
structure Reading where
  value : List Char
  ending : Ending
  rest : List Char

/-- The reading with one more character in front of its value. -/
def Reading.cons (c : Char) (r : Reading) : Reading :=
  { r with value := c :: r.value }

/-! ## Strings -/

/-- A string up to its quote. An escaped line end adds nothing, and so does a backslash at the
end of the input. A line end that is not escaped breaks the string off and stays in the rest. -/
def readString (quote : Char) : List Char → Reading
  | [] => ⟨[], .endOfInput, []⟩
  | c :: rest =>
    if c = quote then ⟨[], .closed, rest⟩
    else if c = '\\' then
      match rest with
      | [] => ⟨[], .endOfInput, []⟩
      | '\n' :: after => readString quote after
      | d :: after =>
        let escape := readEscape (d :: after)
        (readString quote escape.2).cons escape.1
    else if c = '\n' then ⟨[], .bad, c :: rest⟩
    else (readString quote rest).cons c
termination_by text => text.length
decreasing_by
  · simp only [List.length_cons]; omega
  · exact Nat.lt_succ_of_le (length_readEscape_le (d :: after))
  · simp

/-- A string leaves no more than there was. -/
theorem length_readString_le (quote : Char) (text : List Char) :
    (readString quote text).rest.length ≤ text.length := by
  fun_induction readString quote text with
  | case1 => exact Nat.le_refl _
  | case2 => simp
  | case3 => simp
  | case4 after _ ih => simp only [List.length_cons]; omega
  | case5 d after _ _ escape ih =>
    exact Nat.le_succ_of_le (Nat.le_trans ih (length_readEscape_le (d :: after)))
  | case6 => exact Nat.le_refl _
  | case7 c rest _ _ _ ih => exact Nat.le_succ_of_le ih

/-- One character of a written string. -/
def stringCharText (c : Char) : List Char :=
  if c = '"' || c = '\\' || c = '\n' || c = '\r' || c = '\x0c' then escapeText c else [c]

/-- A string between double quotes; an open string has no closing one. -/
def stringText (value : List Char) (closed : Bool) : List Char :=
  '"' :: (value.flatMap stringCharText ++ if closed then ['"'] else [])

/-! ## URLs -/

/-- The characters that an unquoted URL may not hold. -/
def isUrlForbidden (c : Char) : Bool :=
  c == '"' || c == '\'' || c == '(' || decide (c.toNat ≤ 0x08) || c.toNat == 0x0B ||
  (0x0E ≤ c.toNat && c.toNat ≤ 0x1F) || c.toNat == 0x7F

/-- What follows a URL that broke off: the text after the next closing bracket that no
backslash stands before. -/
def afterBadUrl : List Char → List Char
  | [] => []
  | '\\' :: ')' :: rest => afterBadUrl rest
  | ')' :: rest => rest
  | _ :: rest => afterBadUrl rest

/-- The end of a URL after white space: only the closing bracket may follow. -/
def finishUrl (text : List Char) : Reading :=
  match text.dropWhile isSpace with
  | [] => ⟨[], .endOfInput, []⟩
  | ')' :: rest => ⟨[], .closed, rest⟩
  | rest => ⟨[], .bad, afterBadUrl rest⟩

/-- A URL up to its closing bracket, or to the white space before it. -/
def readUrlBody : List Char → Reading
  | [] => ⟨[], .endOfInput, []⟩
  | c :: rest =>
    if c = ')' then ⟨[], .closed, rest⟩
    else if isSpace c then finishUrl rest
    else if startsEscape (c :: rest) then
      let escape := readEscape rest
      (readUrlBody escape.2).cons escape.1
    else if isUrlForbidden c then ⟨[], .bad, afterBadUrl rest⟩
    else (readUrlBody rest).cons c
termination_by text => text.length
decreasing_by
  · exact Nat.lt_succ_of_le (length_readEscape_le rest)
  · simp

/-- An unquoted URL, read after its opening bracket. -/
def readUrl (text : List Char) : Reading :=
  readUrlBody (text.dropWhile isSpace)

/-- A broken URL leaves no more than there was. -/
theorem length_afterBadUrl_le (text : List Char) :
    (afterBadUrl text).length ≤ text.length := by
  fun_induction afterBadUrl text with
  | case1 => exact Nat.le_refl _
  | case2 rest ih => simp only [List.length_cons]; omega
  | case3 rest => simp
  | case4 c rest _ _ ih => exact Nat.le_succ_of_le ih

/-- The white space after a URL leaves no more than there was. -/
theorem length_finishUrl_le (text : List Char) :
    (finishUrl text).rest.length ≤ text.length := by
  have hd := length_dropWhile_le isSpace text
  unfold finishUrl
  split
  · simp
  · next rest h =>
    rw [h, List.length_cons] at hd
    exact Nat.le_of_succ_le hd
  · exact Nat.le_trans (length_afterBadUrl_le _) hd

/-- The characters of a URL leave no more than there was. -/
theorem length_readUrlBody_le (text : List Char) :
    (readUrlBody text).rest.length ≤ text.length := by
  fun_induction readUrlBody text with
  | case1 => exact Nat.le_refl _
  | case2 => simp
  | case3 c rest => exact Nat.le_succ_of_le (length_finishUrl_le rest)
  | case4 c rest _ _ _ escape ih =>
    exact Nat.le_succ_of_le (Nat.le_trans ih (length_readEscape_le rest))
  | case5 c rest => exact Nat.le_succ_of_le (length_afterBadUrl_le rest)
  | case6 c rest _ _ _ _ ih => exact Nat.le_succ_of_le ih

/-- An unquoted URL leaves no more than there was. -/
theorem length_readUrl_le (text : List Char) : (readUrl text).rest.length ≤ text.length :=
  Nat.le_trans (length_readUrlBody_le _) (length_dropWhile_le _ _)

/-- One character of a written URL. -/
def urlCharText (c : Char) : List Char :=
  if c = '\t' then ['\\', '9', ' ']
  else if c = '\n' || c = '\r' || c = '\x0c' || c = '\'' || c = '"' || c = '\\' || c = ' ' ||
      c = '(' || c = ')' then escapeText c
  else [c]

/-- An unquoted URL; an open one has no closing bracket. -/
def urlText (value : List Char) (closed : Bool) : List Char :=
  'u' :: 'r' :: 'l' :: '(' :: (value.flatMap urlCharText ++ if closed then [')'] else [])

end CssTemplate.Css
