import CssTemplate.Template.Node

/-!
# Segments

The flat view of a template: literal texts and expressions in source order. `Node.segments`
flattens a template, and `refill` puts segments back into the shape of a template whose
expressions they have to match.
-/

namespace CssTemplate

/-- A piece of the flat view. A foreign value is no valid segment. -/
inductive Segment where
  | literal (text : List Char)
  | expression (expression : Expression)
  | foreign (value : Foreign)
  deriving Repr

namespace Segment

/-- The segment as messages show it. -/
def display : Segment → List Char
  | .literal text => "LiteralSegment(text=".toList ++ quoted text ++ [')']
  | .expression e => "ExprSegment(ref=".toList ++ e.display ++ [')']
  | .foreign value => value.display

/-- Whether a segment is an expression. -/
def isExpression : Segment → Bool
  | .expression _ => true
  | _ => false

end Segment

/-- Why a tree has no segments, or segments do not fit a template. -/
inductive TemplateFault where
  /-- A foreign value in a template. -/
  | foreignNode (value : Foreign)
  /-- A shape that is no template. -/
  | notTemplate (typeName : List Char)
  /-- A part of the shape that has no expression. -/
  | notSpan (typeName : List Char)
  /-- The segments end where a literal is due. -/
  | missingLiteral
  /-- The segments end where an expression is due. -/
  | missingExpression
  /-- Another segment where a literal is due. -/
  | notLiteral (found : Segment)
  /-- Another segment where an expression is due. -/
  | notExpression (found : Segment)
  /-- Another expression than the one in the shape. -/
  | otherExpression (found expected : Expression)
  /-- Segments after the last one that is due. -/
  | leftOver (count : Nat)
  deriving Repr

namespace TemplateFault

/-- The fault in words. -/
def message : TemplateFault → List Char
  | .foreignNode value => "Unknown template node: ".toList ++ value.typeName
  | .notTemplate typeName => "Unknown template node: ".toList ++ typeName
  | .notSpan typeName => '\'' :: typeName ++ "' object has no attribute 'expression'".toList
  | .missingLiteral => "Ran out of segments while expecting a literal".toList
  | .missingExpression => "Ran out of segments while expecting an expression".toList
  | .notLiteral found => "Expected a literal segment, got ".toList ++ found.display
  | .notExpression found => "Expected an expression segment, got ".toList ++ found.display
  | .otherExpression found expected =>
    "Expression ".toList ++ found.display ++ " does not match template expression ".toList ++
      expected.display
  | .leftOver count => decimal count ++ " segment(s) left over after recreation".toList

/-- The value that the fault is about, where one is reported beside the message. -/
def detail : TemplateFault → Option (List Char)
  | .foreignNode value => some value.display
  | _ => none

end TemplateFault

/-! ## From a tree to segments -/

mutual

/-- The segments of a tree in source order. Every literal gives a segment, also an empty one. -/
def Node.segments : Node → Except TemplateFault (List Segment)
  | .template head spans => do
    let first ← head.segments
    let rest ← segmentsOf spans
    .ok (first ++ rest)
  | .span expression literal => do
    let rest ← literal.segments
    .ok (.expression expression :: rest)
  | .text text => .ok [.literal text]
  | .foreign value => .error (.foreignNode value)

/-- The segments of trees in a row. -/
def segmentsOf : List Node → Except TemplateFault (List Segment)
  | [] => .ok []
  | node :: nodes => do
    let first ← node.segments
    let rest ← segmentsOf nodes
    .ok (first ++ rest)

end

/-! ## From segments to a template -/

/-- The literal at the front of the segments, and the rest. -/
def popLiteral : List Segment → Except TemplateFault (List Char × List Segment)
  | [] => .error .missingLiteral
  | .literal text :: rest => .ok (text, rest)
  | found :: _ => .error (.notLiteral found)

/-- The expression at the front of the segments, and the rest. -/
def popExpression : List Segment → Except TemplateFault (Expression × List Segment)
  | [] => .error .missingExpression
  | .expression e :: rest => .ok (e, rest)
  | found :: _ => .error (.notExpression found)

/-- The span of the shape, filled from the front of the segments, and the rest. -/
def fillSpan (shape : Node) (segments : List Segment) :
    Except TemplateFault (Span × List Segment) := do
  let (found, afterExpression) ← popExpression segments
  match shape with
  | .span expected _ =>
    if found = expected then
      let (literal, rest) ← popLiteral afterExpression
      .ok (⟨expected, literal⟩, rest)
    else .error (.otherExpression found expected)
  | other => .error (.notSpan other.typeName)

/-- The spans of the shape, filled from the front of the segments, and the rest. -/
def fillSpans : List Node → List Segment → Except TemplateFault (List Span × List Segment)
  | [], segments => .ok ([], segments)
  | shape :: shapes, segments => do
    let (span, rest) ← fillSpan shape segments
    let (spans, rest) ← fillSpans shapes rest
    .ok (span :: spans, rest)

/-- The template with the structure and the expressions of `shape` whose segments are the given
ones. Literal texts may differ from those of the shape. -/
def refill (shape : Node) (segments : List Segment) : Except TemplateFault Template :=
  match shape with
  | .template _ shapes => do
    let (head, rest) ← popLiteral segments
    let (spans, rest) ← fillSpans shapes rest
    match rest with
    | [] => .ok ⟨head, spans⟩
    | _ => .error (.leftOver rest.length)
  | other => .error (.notTemplate other.typeName)

end CssTemplate
