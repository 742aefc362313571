import CssTemplate.Text.Alphanumeric
import CssTemplate.Text.Split

/-!
# Identifiers of the host program

An identifier starts with an ASCII letter, an underscore or a dollar sign and goes on with
word characters and dollar signs. A path is one or more identifiers joined by dots.
-/

namespace CssTemplate

/-- The characters that may start an identifier. -/
def startsIdentifier (c : Char) : Bool :=
  c.isAlpha || c == '_' || c == '$'

/-- The characters that may follow in an identifier. -/
def continuesIdentifier (c : Char) : Bool :=
  isWord c || c == '$'

/-- Whether a text is an identifier from its first to its last character. -/
def isIdentifier : List Char → Bool
  | [] => false
  | c :: rest => startsIdentifier c && rest.all continuesIdentifier

/-- Whether a text is an identifier, or one followed by a single line end. -/
def isIdentifierLine (text : List Char) : Bool :=
  isIdentifier text || (text.getLast? == some '\n' && isIdentifier text.dropLast)

/-- Whether a text consists of identifiers joined by single dots. -/
def isPath (text : List Char) : Bool :=
  (splitWhere (· == '.') text).all isIdentifier

end CssTemplate
