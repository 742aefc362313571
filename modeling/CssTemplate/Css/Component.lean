/-!
# Component values

A style sheet is a sequence of tokens in which brackets and functions enclose further
sequences. `Token` is the flat view: atoms, openings and closings. `Component` is the nested
view: atoms and groups. `Component.ofTokens` turns the first into the second with a stack of
open groups; a closing that does not match the innermost open group becomes a fault, and groups
still open at the end are closed there.
-/

namespace CssTemplate.Css

/-- The three pairs of brackets. -/
inductive Bracket where
  | round
  | square
  | curly
  deriving DecidableEq, Repr, Inhabited

/-- The opening character. -/
def Bracket.openChar : Bracket → Char
  | .round => '('
  | .square => '['
  | .curly => '{'

/-- The closing character. -/
def Bracket.closeChar : Bracket → Char
  | .round => ')'
  | .square => ']'
  | .curly => '}'

/-- What can go wrong inside a single token. -/
inductive TokenFault where
  /-- A string that a line end breaks off. -/
  | badString
  /-- A string that the end of the input breaks off. -/
  | openString
  /-- A URL with a character that it may not hold. -/
  | badUrl
  /-- A URL that the end of the input breaks off. -/
  | openUrl
  /-- A closing bracket that closes nothing. -/
  | unmatched (bracket : Bracket)
  deriving DecidableEq, Repr, Inhabited

/-- A token without inner structure. Names and strings are held with their escapes decoded,
numbers as they are written. -/
inductive Atom where
  | space (text : List Char)
  | literal (text : List Char)
  | ident (name : List Char)
  | atKeyword (name : List Char)
  /-- A name after `#`; the flag tells whether it is an identifier. -/
  | hash (name : List Char) (isIdent : Bool)
  /-- A string; the flag tells whether its closing quote is there. -/
  | string (value : List Char) (closed : Bool)
  /-- An unquoted URL; the flag tells whether its closing bracket is there. -/
  | url (value : List Char) (closed : Bool)
  | unicodeRange (first last : Nat)
  | number (numeral : List Char)
  | percentage (numeral : List Char)
  | dimension (numeral : List Char) (unit : List Char)
  | fault (fault : TokenFault)
  deriving DecidableEq, Repr, Inhabited

/-- What opens a group: a bracket, or a function name with its round bracket. -/
inductive Opening where
  | bracket (bracket : Bracket)
  | function (name : List Char)
  deriving DecidableEq, Repr, Inhabited

/-- The bracket that closes the group. -/
def Opening.closedBy : Opening → Bracket
  | .bracket b => b
  | .function _ => .round

/-- The flat view of a style sheet. -/
inductive Token where
  | atom (atom : Atom)
  | opening (opening : Opening)
  | closing (bracket : Bracket)
  deriving DecidableEq, Repr, Inhabited

/-- The nested view of a style sheet. -/
inductive Component where
  | atom (atom : Atom)
  | group (opening : Opening) (content : List Component)
  deriving Repr, Inhabited

namespace Component

/-- White space. -/
def isSpace : Component → Bool
  | .atom (.space _) => true
  | _ => false

/-- The literal with the given text. -/
def isLiteral (text : List Char) : Component → Bool
  | .atom (.literal found) => found == text
  | _ => false

/-- The contents of a curly block. -/
def curly? : Component → Option (List Component)
  | .group (.bracket .curly) content => some content
  | _ => none

/-- A semicolon. -/
def isSemicolon (c : Component) : Bool :=
  c.isLiteral [';']

/-! ## Size -/

mutual

/-- The number of atoms and groups in a component. -/
def size : Component → Nat
  | .atom _ => 1
  | .group _ content => 1 + sizes content

/-- The number of atoms and groups in a list of components. -/
def sizes : List Component → Nat
  | [] => 0
  | c :: cs => c.size + sizes cs

end

/-- Every component counts. -/
theorem size_pos (c : Component) : 0 < c.size := by
  cases c with
  | atom => exact Nat.one_pos
  | group => rw [size]; omega

/-- Components in a row are counted together. -/
theorem sizes_append (xs ys : List Component) : sizes (xs ++ ys) = sizes xs + sizes ys := by
  induction xs with
  | nil => simp [sizes]
  | cons x xs ih => simp [sizes, ih, Nat.add_assoc]

/-- The content of a block is smaller than the block. -/
theorem sizes_content_lt {c : Component} {content : List Component} (h : c.curly? = some content) :
    sizes content < c.size := by
  unfold curly? at h
  split at h
  · cases h; simp [size]
  · cases h

end Component

/-! ## From tokens to components -/

/-- Components under construction: those of the innermost open group, last one first, and the
open groups around it, each with the components before it. -/
structure OpenGroups where
  current : List Component := []
  enclosing : List (Opening × List Component) := []

namespace OpenGroups

/-- Adds a component to the innermost open group. -/
def push (n : OpenGroups) (c : Component) : OpenGroups :=
  { n with current := c :: n.current }

/-- Takes in one token. -/
def step (n : OpenGroups) : Token → OpenGroups
  | .atom a => n.push (.atom a)
  | .opening o => { current := [], enclosing := (o, n.current) :: n.enclosing }
  | .closing b =>
    match n.enclosing with
    | [] => n.push (.atom (.fault (.unmatched b)))
    | (o, before) :: enclosing =>
      if o.closedBy = b then
        { current := .group o n.current.reverse :: before, enclosing := enclosing }
      else n.push (.atom (.fault (.unmatched b)))

/-- Closes the open groups, innermost first. -/
def closeAll : List Component → List (Opening × List Component) → List Component
  | current, [] => current.reverse
  | current, (o, before) :: enclosing => closeAll (.group o current.reverse :: before) enclosing

/-- The finished components. -/
def finish (n : OpenGroups) : List Component :=
  closeAll n.current n.enclosing

end OpenGroups

/-- The nested view of a token sequence. -/
def Component.ofTokens (tokens : List Token) : List Component :=
  (tokens.foldl OpenGroups.step {}).finish

end CssTemplate.Css
