import CssTemplate.Text.Blank
import CssTemplate.Text.Identifier

/-!
# Tags

The tag in front of a template tells whether it is a styling call. Recognized are

    styled.tag
    Component.extend
    styled(Component)
    <styled tag>.attrs(attributes)
    keyframes

with white space around the dots and before the brackets. An argument is one expression: its
brackets are balanced, its quotes are closed, and no comma stands outside of both.
-/

namespace CssTemplate

/-- The two kinds of styling calls. -/
inductive CallKind where
  | styled
  | keyframes
  deriving DecidableEq, Repr, Inhabited

/-- The name of a kind, which is also its shortest tag. -/
def CallKind.label : CallKind → List Char
  | .styled => "styled".toList
  | .keyframes => "keyframes".toList

/-! ## Arguments -/

/-- How far an argument has been read: the number of open brackets, the quote that is open, and
whether a backslash stands before the next character. -/
structure ArgumentScan where
  depth : Nat := 0
  quote : Option Char := none
  escaped : Bool := false
  deriving DecidableEq, Repr, Inhabited

/-- Reads one more character; `none` when the argument ends here. -/
def ArgumentScan.step (s : ArgumentScan) (c : Char) : Option ArgumentScan :=
  match s.quote with
  | some quote =>
    if s.escaped then some { s with escaped := false }
    else if c = '\\' then some { s with escaped := true }
    else if c = quote then some { s with quote := none }
    else some s
  | none =>
    if c = '"' || c = '\'' || c = '\x60' then some { s with quote := some c }
    else if c = '(' || c = '[' || c = '{' then some { s with depth := s.depth + 1 }
    else if c = ')' || c = ']' || c = '}' then
      if s.depth = 0 then none else some { s with depth := s.depth - 1 }
    else if c = ',' && s.depth = 0 then none
    else some s

/-- Whether a text is exactly one argument of a call. -/
def isOneArgument (text : List Char) : Bool :=
  !isBlankText text &&
    match text.foldlM ArgumentScan.step {} with
    | some s => s.depth = 0 && s.quote.isNone
    | none => false

/-! ## The four forms -/

/-- The text after a word at its front. -/
def afterWord? (word text : List Char) : Option (List Char) :=
  if word.isPrefixOf text then some (text.drop word.length) else none

/-- The text without blanks at its front. -/
def skipBlanks (text : List Char) : List Char :=
  text.dropWhile isBlank

/-- The text after a dot, with blanks around the dot. -/
def afterDot? (text : List Char) : Option (List Char) :=
  match skipBlanks text with
  | '.' :: rest => some (skipBlanks rest)
  | _ => none

/-- The argument in brackets that make up the rest of the text, with blanks before them. -/
def bracketed? (text : List Char) : Option (List Char) :=
  match skipBlanks text with
  | '(' :: rest => if rest.getLast? = some ')' then some rest.dropLast else none
  | _ => none

/-- Whether a tag is `styled.name`. -/
def isStyledMember (tag : List Char) : Bool :=
  match (afterWord? "styled".toList tag).bind afterDot? with
  | some name => isIdentifier name
  | none => false

/-- The component of a tag `Component.extend`. -/
def extendedComponent? (tag : List Char) : Option (List Char) :=
  let component := tag.takeWhile continuesIdentifier
  match afterDot? (tag.dropWhile continuesIdentifier) with
  | some rest =>
    if isIdentifier component && rest == "extend".toList then some component else none
  | none => none

/-- Whether a name starts with something else than a small letter. -/
def isCapitalized (name : List Char) : Bool :=
  match name with
  | [] => false
  | c :: _ => !c.isLower

/-- The argument of a tag `styled(argument)`. -/
def styledArgument? (tag : List Char) : Option (List Char) :=
  (afterWord? "styled".toList tag).bind bracketed?

/-- The argument of `.attrs(argument)`, when this is the whole text. -/
def attrsArgument? (text : List Char) : Option (List Char) :=
  ((afterDot? text).bind (afterWord? "attrs".toList)).bind bracketed?

/-- A text cut at the first place after its first character where `.attrs(argument)` makes up
the rest: what is before it, and the argument. -/
def cutAttrs? : List Char → Option (List Char × List Char)
  | [] => none
  | c :: rest =>
    match attrsArgument? rest with
    | some argument => some ([c], argument)
    | none => (cutAttrs? rest).map fun (inner, argument) => (c :: inner, argument)

/-- A tag is shorter once its attributes are cut off. -/
theorem length_of_cutAttrs? {text inner argument : List Char}
    (h : cutAttrs? text = some (inner, argument)) : inner.length < text.length := by
  induction text generalizing inner with
  | nil => simp [cutAttrs?] at h
  | cons c rest ih =>
    rw [cutAttrs?] at h
    split at h
    · next ha =>
      cases h
      cases rest with
      | nil => simp [attrsArgument?, afterDot?, skipBlanks] at ha
      | cons => simp
    · rw [Option.map_eq_some_iff] at h
      obtain ⟨⟨inner', argument'⟩, hc, heq⟩ := h
      cases heq
      exact Nat.succ_lt_succ (ih hc)

/-- Whether a tag is a styled tag. A tag that ends in `.extend` is decided by its component
alone, and a call of `.attrs` by its argument and the tag before it. -/
def isStyled (tag : List Char) : Bool :=
  let text := trim tag
  if isStyledMember text then true
  else
    match extendedComponent? text with
    | some component => isCapitalized component
    | none =>
      if (styledArgument? text).any isOneArgument then true
      else
        match _h : cutAttrs? text with
        | some (inner, argument) => isOneArgument argument && isStyled inner
        | none => false
termination_by tag.length
decreasing_by exact Nat.lt_of_lt_of_le (length_of_cutAttrs? (by assumption)) (length_trim_le tag)

/-- The kind of styling call that a tag makes, if it makes one. -/
def CallKind.ofTag? (tag : List Char) : Option CallKind :=
  let text := trim tag
  if text = "keyframes".toList then some .keyframes
  else if isStyled text then some .styled
  else none

end CssTemplate
