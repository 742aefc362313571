import CssTemplate.Text.Blank
import CssTemplate.Text.Quoted

/-!
# Expressions

An expression of the host program is carried through the compilation as its source text and is
never looked into. Its text is not blank, by construction, and two expressions are the same if their
texts are: an object of the host with a text that is blank, or with an equality of its own, is no
`Expression`.
-/

namespace CssTemplate

/-- An embedded expression, as its source text. -/
structure Expression where
  text : List Char
  /-- An expression has something other than white space in it. -/
  not_blank : isBlankText text = false
  deriving DecidableEq, Repr

namespace Expression

/-- The expression with a given text, unless the text is blank. -/
def ofText? (text : List Char) : Option Expression :=
  if h : isBlankText text = false then some ⟨text, h⟩ else none

/-- The expression as messages show it. -/
def display (e : Expression) : List Char :=
  "SourceExpression(text=".toList ++ quoted e.text ++ [')']

/-- An expression is determined by its text. -/
@[ext]
theorem ext {a b : Expression} (h : a.text = b.text) : a = b := by
  cases a; cases b; cases h; rfl

/-- A text gives an expression exactly when it is not blank, and then one with this text. -/
theorem ofText?_eq_some {text : List Char} {e : Expression} :
    ofText? text = some e ↔ e.text = text := by
  unfold ofText?
  split
  · constructor
    · intro h; cases h; rfl
    · intro h; cases e; cases h; rfl
  · next hb =>
    constructor
    · intro h; cases h
    · intro h; exact absurd (h ▸ e.not_blank) hb

end Expression

end CssTemplate
