import CssTemplate.Css.Vendor
import CssTemplate.Fault

/-!
# Processing CSS

Encoded template text goes through two steps: a first step that removes nesting under a
selector, and a finishing step that adds vendor prefixes. `processCss` runs them. The body of an
animation is wrapped in a keyframes rule for the first step, so that its percentages are not
taken for nested selectors; the wrapper has to come back unchanged and is removed again.
-/

namespace CssTemplate

/-- The two steps that CSS goes through. Both must keep the order of markers. -/
structure CssProcessor where
  /-- Removes nesting from a text that is the body of a rule with the given selector. -/
  flatten : List Char → List Char → Except Css.Fault (List Char)
  /-- Works on flat CSS. -/
  finish : List Char → Except Css.Fault (List Char)

/-- The processor that is used when no other one is given. -/
def CssProcessor.nesting (prefixing : Bool) : CssProcessor where
  flatten := Css.flattenCss
  finish := fun css => if prefixing then Css.withVendorPrefixes css else .ok css

/-- The opening of the rule around the body of an animation. -/
def keyframesOpening (name : List Char) : List Char :=
  "@keyframes ".toList ++ name ++ ['{']

/-- What the first step is given. -/
def flattenInput (asKeyframes : Bool) (name text : List Char) : List Char :=
  if asKeyframes then keyframesOpening name ++ text ++ ['}'] else text

/-- The body of an animation inside its wrapper. -/
def unwrapKeyframes (name output : List Char) : Except CompileFault (List Char) :=
  let opening := keyframesOpening name
  if opening.isPrefixOf output && output.getLast? == some '}' then
    .ok (output.drop opening.length).dropLast
  else .error (.keyframeOutput output)

/-- A step's result, with its fault as a fault of the compilation. -/
def liftCss {α : Type} : Except Css.Fault α → Except CompileFault α
  | .ok a => .ok a
  | .error f => .error (.css f)

/-- The processed CSS of a text under a selector. -/
def processCss (processor : CssProcessor) (text context : List Char) (asKeyframes : Bool)
    (animationName : List Char) : Except CompileFault (List Char) := do
  let flat ← liftCss (processor.flatten context (flattenInput asKeyframes animationName text))
  let body ← if asKeyframes then unwrapKeyframes animationName flat else .ok flat
  liftCss (processor.finish body)

end CssTemplate
