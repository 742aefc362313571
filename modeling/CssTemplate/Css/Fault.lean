import CssTemplate.Css.Item
import CssTemplate.Text.Quoted

/-!
# Faults of style sheets

Every reason for which a style sheet cannot be processed, with the words in which it is
reported.
-/

namespace CssTemplate.Css

/-- A fault in a token, in words. -/
def TokenFault.message : TokenFault → List Char
  | .badString => "Bad string token".toList
  | .openString => "EOF in string".toList
  | .badUrl => "bad URL token".toList
  | .openUrl => "EOF in URL".toList
  | .unmatched b => "Unmatched ".toList ++ [b.closeChar]

/-- A fault in a rule, in words. -/
def RuleFault.message : RuleFault → List Char
  | .endOfInput => "EOF reached before \x7b\x7d block for a qualified rule.".toList
  | .semicolon => "Stop token reached before \x7b\x7d block for a qualified rule.".toList

/-- Why a style sheet cannot be flattened or prefixed. -/
inductive Fault where
  /-- A faulty token where a text has to be written. -/
  | token (fault : TokenFault)
  /-- A rule without a block. -/
  | rule (fault : RuleFault)
  /-- The template closes the rule around it, or opens one that is not its own. -/
  | unbalanced (css : List Char)
  /-- An at-rule that a semicolon ends, inside a rule. -/
  | statementAtRule (head : List Char)
  /-- Something that is no rule among the frames of an animation. -/
  | strayInFrames (sort head : List Char)
  /-- Something that is no declaration in a flattened rule. -/
  | strayInRule (sort : List Char)
  deriving DecidableEq, Repr, Inhabited

namespace Fault

/-- The fault in words. -/
def message : Fault → List Char
  | .token f => "Invalid CSS: ".toList ++ f.message
  | .rule f => "Invalid CSS: ".toList ++ f.message
  | .unbalanced _ => "Unbalanced braces in template CSS".toList
  | .statementAtRule head =>
    "Statement at-rule ".toList ++ quoted head ++ " is not allowed inside a template".toList
  | .strayInFrames sort head => "Unexpected ".toList ++ sort ++ " inside ".toList ++ head
  | .strayInRule sort => "Unexpected ".toList ++ sort ++ " inside a flattened rule".toList

/-- The text that the fault is about, where one is reported beside the message. -/
def detail : Fault → Option (List Char)
  | .unbalanced css => some css
  | _ => none

end Fault

end CssTemplate.Css
