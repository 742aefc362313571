import CssTemplate.Block.Place
import CssTemplate.Block.Split
import CssTemplate.Css.Fault
import CssTemplate.Marker.Markers
import CssTemplate.Output.Shape

/-!
# Faults of a compilation

A compilation fails for one of the reasons listed here. Most are structural: the caller broke a
contract, or a stage gave something unexpected. Two are refusals: the template uses something
that is deliberately not supported. Each fault has a name, a message and, where it concerns a
particular text, that text as a detail.
-/

namespace CssTemplate

/-- A promise between stages that is not kept while an output is built. -/
inductive ShapeFault where
  /-- A marker other than the class marker stands for no expression. -/
  | notExpression (label : List Char)
  /-- The body of an animation is not one rule. -/
  | keyframeRules (count : Nat)
  /-- The class name appears in the body of an animation. -/
  | classInKeyframes
  /-- A static rule starts with something else than the class name. -/
  | noClassName
  /-- A static rule holds a value. -/
  | valueInStatic
  /-- A collapsed rule has no terms. -/
  | collapsedEmpty
  /-- A collapsed rule does not start with its brace. -/
  | collapsedOpen
  /-- A collapsed rule does not end with its brace. -/
  | collapsedClose
  deriving DecidableEq, Repr, Inhabited

/-- The fault in words. -/
def ShapeFault.message : ShapeFault → List Char
  | .notExpression label => "Marker ".toList ++ label ++ " is not an expression".toList
  | .keyframeRules count => "Expected exactly one keyframes rule, got ".toList ++ decimal count
  | .classInKeyframes => "Class name marker found in keyframes output".toList
  | .noClassName => "Static rule does not start with the class name".toList
  | .valueInStatic => "Static rule contains a value reference".toList
  | .collapsedEmpty => "Collapsed rule is empty".toList
  | .collapsedOpen => "Collapsed rule does not open with '\x7b'".toList
  | .collapsedClose => "Collapsed rule does not close with '\x7d'".toList

/-- Why a compilation fails. -/
inductive CompileFault where
  | template (fault : TemplateFault)
  | marker (fault : MarkerFault)
  | css (fault : Css.Fault)
  /-- The wrapper around the body of an animation did not come back. -/
  | keyframeOutput (output : List Char)
  | blocks (fault : BlockFault)
  | place (fault : PlaceFault)
  | shape (fault : ShapeFault)
  /-- Expressions as selectors or animation names in the body of an animation. -/
  | keyframeReferences (expressions : List Expression)
  | output (fault : OutputFault)
  deriving Repr

/-- The first characters of a text, with dots when there are more than the limit. -/
def preview (limit : Nat) (text : List Char) : List Char :=
  if limit < text.length then text.take limit ++ ['.', '.', '.'] else text

/-- Expressions as they stand in a template, separated by commas. -/
def shownExpressions (expressions : List Expression) : List Char :=
  joinComma (expressions.map fun e => '$' :: '{' :: (e.text ++ ['}']))

namespace CompileFault

/-- The fault in words. -/
def message : CompileFault → List Char
  | .template f => f.message
  | .marker f => f.message
  | .css f => f.message
  | .keyframeOutput found =>
    "Unexpected keyframe compilation output: ".toList ++ quoted (preview 60 found)
  | .blocks f => f.message
  | .place f => f.message
  | .shape f => f.message
  | .keyframeReferences expressions =>
    "Expressions cannot be used as keyframe selectors or animation names: ".toList ++
      shownExpressions expressions ++
      "; inline the value or move it into a declaration".toList
  | .output f => f.message

/-- The text that the fault is about, where one is reported beside the message. -/
def detail : CompileFault → Option (List Char)
  | .template f => f.detail
  | .marker f => f.detail
  | .css f => f.detail
  | .keyframeOutput found => some found
  | .blocks f => f.detail
  | .keyframeReferences expressions => some (shownExpressions expressions)
  | _ => none

/-- The name under which a fault is reported. -/
def name : CompileFault → List Char
  | .template (.foreignNode _) => "MalformedTemplateError".toList
  | .template (.notTemplate _) => "MalformedTemplateError".toList
  | .template (.notSpan _) => "AttributeError".toList
  | .template _ => "SegmentMismatchError".toList
  | .marker .baseOutOfRange => "ValueError".toList
  | .marker (.exhausted _) => "MalformedTemplateError".toList
  | .marker (.noOccurrence _) => "IndexError".toList
  | .marker (.unknownMarker _) => "ShapeInvariantError".toList
  | .marker (.unknownSegment _) => "MalformedTemplateError".toList
  | .marker (.reserved _ _) => "ReservedCharacterError".toList
  | .css _ => "CssPipelineError".toList
  | .keyframeOutput _ => "UnexpectedKeyframeOutputError".toList
  | .blocks _ => "UnbalancedRulesError".toList
  | .place .nestedAtRule => "NestedAtRuleError".toList
  | .shape _ => "ShapeInvariantError".toList
  | .keyframeReferences _ => "UnsupportedKeyframeReferenceError".toList
  | .output _ => "ValueError".toList

/-- The two tiers of documented faults. -/
inductive Tier where
  /-- A contract between callers and stages is broken. -/
  | structural
  /-- The template uses something that is not supported. -/
  | unsupported
  deriving DecidableEq, Repr, Inhabited

/-- The tier of a fault. Faults without a tier are never the outcome of a compilation. -/
def tier : CompileFault → Option Tier
  | .template (.notSpan _) => none
  | .marker .baseOutOfRange => none
  | .marker (.noOccurrence _) => none
  | .output _ => none
  | .place .nestedAtRule => some .unsupported
  | .keyframeReferences _ => some .unsupported
  | _ => some .structural

end CompileFault

end CssTemplate
