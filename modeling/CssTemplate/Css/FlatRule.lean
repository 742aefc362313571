/-!
# Flat rules

The result of flattening: style rules with their selectors written out, and at-rules around
them. `FlatRule.text` writes a rule in minified form.
-/

namespace CssTemplate.Css

/-- A declaration of a flat rule, with its value already minified. -/
inductive FlatDeclaration where
  /-- A bare statement, written as an identifier. -/
  | bare (identifier : List Char)
  | property (name value : List Char) (important : Bool)
  deriving DecidableEq, Repr, Inhabited

/-- A declaration as it is written, with its semicolon. -/
def FlatDeclaration.text : FlatDeclaration → List Char
  | .bare identifier => identifier ++ [';']
  | .property name value important =>
    name ++ ':' :: value ++ (if important then "!important".toList else []) ++ [';']

/-- A rule without nesting: a style rule, or an at-rule around such rules. -/
inductive FlatRule where
  | style (selectors : List (List Char)) (declarations : List FlatDeclaration)
  | atRule (head : List Char) (rules : List FlatRule)
  deriving Repr, Inhabited

/-- Texts joined by commas. -/
def joinCommas (texts : List (List Char)) : List Char :=
  [','].intercalate texts

/-- The declarations of a rule in a row. -/
def declarationsText (declarations : List FlatDeclaration) : List Char :=
  declarations.flatMap FlatDeclaration.text

/-- A head with its body in curly brackets. -/
def blockText (head body : List Char) : List Char :=
  head ++ '{' :: body ++ ['}']

mutual

/-- The minified text of a flat rule. -/
def FlatRule.text : FlatRule → List Char
  | .style selectors declarations => blockText (joinCommas selectors) (declarationsText declarations)
  | .atRule head rules => blockText head (rulesText rules)

/-- The minified text of flat rules in a row. -/
def rulesText : List FlatRule → List Char
  | [] => []
  | rule :: rules => rule.text ++ rulesText rules

end

end CssTemplate.Css
