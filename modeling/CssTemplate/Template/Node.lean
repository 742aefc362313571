import CssTemplate.Template.Expression
import CssTemplate.Template.Foreign

/-!
# Templates

A template is a literal text followed by spans: an expression and the literal text after it.
Callers hand in trees of `Node`s, which may be ill-formed: any node can stand in any place, and
so can a foreign value. `Template.toNode` gives the well-formed ones.
-/

namespace CssTemplate

/-- An expression and the literal text after it. -/
structure Span where
  expression : Expression
  literal : List Char
  deriving DecidableEq, Repr

/-- A literal text and the spans after it. -/
structure Template where
  head : List Char
  spans : List Span
  deriving DecidableEq, Repr

/-- A template as callers build it, well-formed or not. -/
inductive Node where
  | template (head : Node) (spans : List Node)
  | span (expression : Expression) (literal : Node)
  | text (text : List Char)
  | foreign (value : Foreign)
  deriving Repr

instance : Inhabited Node :=
  ⟨.text []⟩

/-- The name of a node's type in messages. -/
def Node.typeName : Node → List Char
  | .template _ _ => "TemplateNode".toList
  | .span _ _ => "TemplateSpan".toList
  | .text _ => "str".toList
  | .foreign value => value.typeName

/-- A span as a node. -/
def Span.toNode (s : Span) : Node :=
  .span s.expression (.text s.literal)

/-- A template as a node. -/
def Template.toNode (t : Template) : Node :=
  .template (.text t.head) (t.spans.map Span.toNode)

/-- The expressions of a template, in order. -/
def Template.expressions (t : Template) : List Expression :=
  t.spans.map Span.expression

/-- The literal texts of a template, in order. -/
def Template.literals (t : Template) : List (List Char) :=
  t.head :: t.spans.map Span.literal

end CssTemplate
