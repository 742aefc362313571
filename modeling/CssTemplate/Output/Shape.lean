import CssTemplate.Output.Term
import CssTemplate.Text.Numeral

/-!
# Compiled outputs

The result of compiling a template has one of four shapes, from the most to the least special.
`Output.make` checks what the shapes promise: the body of an animation and a collapsed rule are
exactly one rule, and only a function has parameters and slots.
-/

namespace CssTemplate

/-- The shapes of a compiled output. -/
inductive Shape where
  /-- The body of an animation: one rule. -/
  | keyframe
  /-- Rules without values, the class name before each of them left out. -/
  | staticArray
  /-- The declarations of a single rule without values. -/
  | singleCollapsed
  /-- A function of the class name and the slots. -/
  | functional
  deriving DecidableEq, Repr, Inhabited

/-- The name of a shape. -/
def Shape.label : Shape → List Char
  | .keyframe => "keyframe".toList
  | .staticArray => "static_array".toList
  | .singleCollapsed => "single_collapsed".toList
  | .functional => "functional".toList

/-- Whether a shape is exactly one rule. -/
def Shape.isSingle : Shape → Bool
  | .keyframe => true
  | .singleCollapsed => true
  | _ => false

/-- Why parts make no output. -/
inductive OutputFault where
  /-- A shape of one rule with another number of rules. -/
  | notOneRule (shape : Shape)
  /-- Parameters or slots on a shape that takes none. -/
  | takesNoParameters (shape : Shape)
  /-- The only rule is asked for, and there is another number of rules. -/
  | noSoleRule (shape : Shape) (count : Nat)
  deriving DecidableEq, Repr, Inhabited

/-- The fault in words. -/
def OutputFault.message : OutputFault → List Char
  | .notOneRule shape => shape.label ++ " output must have exactly one rule".toList
  | .takesNoParameters shape => shape.label ++ " output takes no parameters".toList
  | .noSoleRule shape count =>
    shape.label ++ " output has ".toList ++ decimal count ++ " rules".toList

/-- The result of compiling one template. -/
structure Output where
  shape : Shape
  rules : List Rule
  /-- The parameters of a function, the class name first. -/
  parameters : List (List Char)
  /-- The slots in the order of first binding. -/
  slots : List Slot
  one_rule : shape.isSingle = true → rules.length = 1
  no_parameters : shape ≠ .functional → parameters = [] ∧ slots = []

namespace Output

/-- An output from its parts, if they keep the promises of the shape. -/
def make (shape : Shape) (rules : List Rule) (parameters : List (List Char)) (slots : List Slot) :
    Except OutputFault Output :=
  if hr : shape.isSingle = true → rules.length = 1 then
    if hp : shape ≠ .functional → parameters = [] ∧ slots = [] then
      .ok ⟨shape, rules, parameters, slots, hr, hp⟩
    else .error (.takesNoParameters shape)
  else .error (.notOneRule shape)

/-- Whether the output is a function. -/
def isFunctional (o : Output) : Bool :=
  o.shape = .functional

/-- The expressions to pass after the template, in the order of the parameters. -/
def arguments (o : Output) : List Expression :=
  o.slots.map Slot.occurrence

/-- The only rule of the output. -/
def soleRule (o : Output) : Except OutputFault Rule :=
  match o.rules with
  | [rule] => .ok rule
  | rules => .error (.noSoleRule o.shape rules.length)

end Output

end CssTemplate
