import CssTemplate.Template.Expression
import CssTemplate.Template.Foreign

/-!
# Terms

A compiled rule is a sequence of terms: literal texts, and values that are known only when the
host program runs.
-/

namespace CssTemplate

/-- A named parameter that stands for one occurrence of an expression. -/
structure Slot where
  name : List Char
  occurrence : Expression
  deriving DecidableEq, Repr

/-- Where a value comes from. -/
inductive Handle where
  /-- The class name, which the caller supplies. -/
  | className
  /-- A parameter. -/
  | slot (slot : Slot)
  /-- An expression in its place. -/
  | expression (expression : Expression)
  /-- Something that gives no value. -/
  | foreign (value : Foreign)
  deriving Repr

/-- A part of a compiled rule. -/
inductive Term where
  | text (text : List Char)
  | value (handle : Handle)
  deriving Repr

/-- A compiled rule: its terms in order. -/
abbrev Rule := List Term

/-- A text as terms: no term when it is empty. -/
def textTerm (text : List Char) : List Term :=
  if text.isEmpty then [] else [.text text]

/-- Whether a term is a literal text. -/
def Term.isText : Term → Bool
  | .text _ => true
  | .value _ => false

/-- Whether a term is the class name. -/
def Term.isClassName : Term → Bool
  | .value .className => true
  | _ => false

end CssTemplate
