import CssTemplate.Compilation
import CssTemplate.Output.Script
import CssTemplate.Source.Tagged
import CssTemplate.Tag

/-!
# Calls

A tagged template is replaced by a plain call of its tag: with the compiled output as the first
argument and the expressions of the slots after it. The tag decides how the template is
compiled; a template without a tag is compiled as it is asked for, and named after its kind.
-/

namespace CssTemplate

/-- A call that replaces a tagged template. -/
structure Call where
  tag : List Char
  compilation : Compilation

/-- Why a tagged template is not replaced. -/
inductive CallFault where
  /-- The tag makes no styling call. -/
  | notStyled (tag : List Char)
  | compile (fault : CompileFault)
  deriving Repr

/-- The fault in words. -/
def CallFault.message : CallFault → List Char
  | .notStyled tag => "Not a styled template tag: ".toList ++ quoted tag
  | .compile f => f.message

/-- The kind of styling call; without a tag, the one that is asked for. -/
def callKind (tag : Option (List Char)) (keyframes : Bool) : Except CallFault CallKind :=
  match tag with
  | none => .ok (if keyframes then .keyframes else .styled)
  | some tag =>
    match CallKind.ofTag? tag with
    | some kind => .ok kind
    | none => .error (.notStyled tag)

/-- The call that replaces a template with the given tag. -/
def Compiler.call (compiler : Compiler) (tag : Option (List Char)) (template : Node)
    (keyframes : Bool) : Except CallFault Call := do
  let kind ← callKind tag keyframes
  match compiler.compile template (kind = .keyframes) with
  | .ok compilation => .ok ⟨tag.getD kind.label, compilation⟩
  | .error f => .error (.compile f)

namespace Call

/-- The compiled output of a call. -/
def output (c : Call) : Output :=
  c.compilation.output

/-- The expressions that the call passes after the output. -/
def arguments (c : Call) : List Expression :=
  c.output.arguments

/-- The call as program text. -/
def script (config : Config) (c : Call) : Except ScriptFault (List Char) :=
  callScript config c.tag c.output

end Call

end CssTemplate
