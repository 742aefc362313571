import CssTemplate.Config
import CssTemplate.Output.Shape
import CssTemplate.Text.StringLiteral

/-!
# Outputs as program text

A compiled output is written as an expression of the host program, JavaScript: texts become
string literals, terms are joined by `+`, rules stand in an array, and a function is an arrow
function of its parameters. An expression that is more than a path of identifiers is put in
brackets.
-/

namespace CssTemplate

/-- Why an output cannot be written. -/
inductive ScriptFault where
  /-- A handle that gives no value. -/
  | foreignHandle (value : Foreign)
  | output (fault : OutputFault)
  deriving Repr

/-- The fault in words. -/
def ScriptFault.message : ScriptFault → List Char
  | .foreignHandle value => "Cannot render value handle ".toList ++ value.display
  | .output f => f.message

/-- An expression, in brackets unless it is a path. -/
def expressionScript (e : Expression) : List Char :=
  let text := trim e.text
  if isPath text then text else '(' :: (text ++ [')'])

/-- A handle as program text. -/
def handleScript (config : Config) : Handle → Except ScriptFault (List Char)
  | .className => .ok config.classParameter
  | .slot slot => .ok slot.name
  | .expression e => .ok (expressionScript e)
  | .foreign value => .error (.foreignHandle value)

/-- A term as program text. -/
def termScript (config : Config) : Term → Except ScriptFault (List Char)
  | .text text => .ok (stringLiteral text)
  | .value handle => handleScript config handle

/-- The terms of a rule joined by `+`; the empty string literal for an empty rule. -/
def ruleScript (config : Config) (rule : Rule) : Except ScriptFault (List Char) :=
  if rule.isEmpty then .ok ['"', '"']
  else (rule.mapM (termScript config)).map [' ', '+', ' '].intercalate

/-- Rules as an array. -/
def arrayScript (config : Config) (rules : List Rule) : Except ScriptFault (List Char) :=
  (rules.mapM (ruleScript config)).map fun texts => '[' :: (joinComma texts ++ [']'])

/-- An output as program text. -/
def Output.script (config : Config) (o : Output) : Except ScriptFault (List Char) :=
  if o.shape.isSingle then
    match o.soleRule with
    | .ok rule => ruleScript config rule
    | .error f => .error (.output f)
  else do
    let array ← arrayScript config o.rules
    if o.isFunctional then .ok ('(' :: joinComma o.parameters ++ ") => ".toList ++ array)
    else .ok array

/-- A call of a tag with an output and its arguments. -/
def callScript (config : Config) (tag : List Char) (o : Output) :
    Except ScriptFault (List Char) := do
  let template ← o.script config
  .ok (tag ++ '(' :: joinComma (template :: o.arguments.map expressionScript) ++ [')'])

end CssTemplate
