import CssTemplate.Css.FlatRule
import CssTemplate.Css.Lexer
import CssTemplate.Css.NestedRule
import CssTemplate.Css.Selector

/-!
# Flattening nested rules

The body of a rule is turned into flat rules: first one style rule with the declarations of the
body itself, if there are any, then what the rules inside it give, in order. Rules inside take
the selectors around them (`selectorsUnder`); a conditional at-rule wraps what its body gives;
the frames of an animation start from their own selectors; other at-rules stand for themselves,
outside all selectors. `flattenTemplate` does this to a text that is the body of a rule with a
given selector.
-/

namespace CssTemplate.Css

/-- The keyword and the prelude of an at-rule. -/
def atRuleHead (keyword : List Char) (prelude : List Component) : Except Fault (List Char) :=
  (minify prelude).map fun text =>
    '@' :: keyword ++ if text.isEmpty then [] else ' ' :: text

/-- What a body gives: its own declarations, and the flat rules of what is inside it. -/
structure Flattened where
  own : List FlatDeclaration := []
  inner : List FlatRule := []
  deriving Repr, Inhabited

namespace Flattened

/-- What two parts of a body give together. -/
def append (a b : Flattened) : Flattened :=
  ⟨a.own ++ b.own, a.inner ++ b.inner⟩

/-- The flat rules of a body under its selectors. -/
def rules (f : Flattened) (selectors : List (List Char)) : List FlatRule :=
  (if f.own.isEmpty then [] else [.style selectors f.own]) ++ f.inner

end Flattened

mutual

/-- What one node of the nesting tree gives under the selectors around it. -/
def NestedRule.flatten (selectors : List (List Char)) : NestedRule → Except Fault Flattened
  | .bare name => .ok { own := [.bare (identifierText name)] }
  | .declaration d => do
    let value ← minify d.value
    .ok { own := [.property d.name value d.important] }
  | .rule inner body => do
    let selectors ← selectorsUnder selectors inner
    let flat ← flattenBody selectors body
    .ok { inner := flat.rules selectors }
  | .atRule .conditional keyword prelude body => do
    let head ← atRuleHead keyword prelude
    let flat ← flattenBody selectors body
    .ok { inner := [.atRule head (flat.rules selectors)] }
  | .atRule .keyframes keyword prelude frames => do
    let head ← atRuleHead keyword prelude
    let rules ← flattenFrames head frames
    .ok { inner := [.atRule head rules] }
  | .atRule .unscoped keyword prelude body => do
    let head ← atRuleHead keyword prelude
    let flat ← flattenBody [head] body
    let rules := flat.rules [head]
    .ok { inner := if rules.isEmpty then [.style [head] []] else rules }
  | .atStatement keyword prelude => do
    let head ← atRuleHead keyword prelude
    .error (.statementAtRule head)
  | .malformed f => .error (.rule f)

/-- What a body gives under its selectors. -/
def flattenBody (selectors : List (List Char)) : List NestedRule → Except Fault Flattened
  | [] => .ok {}
  | node :: nodes => do
    let first ← node.flatten selectors
    let rest ← flattenBody selectors nodes
    .ok (first.append rest)

/-- The flat rules of an animation's frames, each under its own selector. -/
def flattenFrames (head : List Char) : List NestedRule → Except Fault (List FlatRule)
  | [] => .ok []
  | .rule selector body :: nodes => do
    let selector ← minify selector
    let flat ← flattenBody [selector] body
    let rest ← flattenFrames head nodes
    .ok (flat.rules [selector] ++ rest)
  | node :: _ => .error (.strayInFrames node.sort head)

end

/-! ## Templates -/

/-- The first malformed rule of a list, if there is one. -/
def firstMalformed : List RawRule → Option RuleFault
  | [] => none
  | .malformed f :: _ => some f
  | _ :: rules => firstMalformed rules

/-- The body that a template is: the text has to be the body of exactly one rule when it is put
in curly brackets after its selector. -/
def templateBody (context css : List Char) : Except Fault (List Component) :=
  let rules := styleSheet (Component.parse (blockText context css))
  match firstMalformed rules with
  | some f => .error (.rule f)
  | none =>
    match rules with
    | [.style _ content] => .ok content
    | _ => .error (.unbalanced css)

/-- The flat rules of a template under a selector. -/
def flattenTemplate (context css : List Char) : Except Fault (List FlatRule) := do
  let content ← templateBody context css
  let flat ← flattenBody [context] (NestedRule.ofBody content)
  .ok (flat.rules [context])

/-- The minified text of a template under a selector, without nesting. -/
def flattenCss (context css : List Char) : Except Fault (List Char) :=
  (flattenTemplate context css).map rulesText

end CssTemplate.Css
