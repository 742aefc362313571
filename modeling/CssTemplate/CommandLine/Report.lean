import CssTemplate.Call
import CssTemplate.CommandLine.Help

/-!
# Reports

What the commands print: the call that replaces a template, every stage of its compilation, the
progress of a compilation, and the reasons of a failure.
-/

namespace CssTemplate.CommandLine

/-! ## Stages -/

/-- The segments of a template, one a line; expressions are numbered from the given index. -/
def segmentLines (index : Nat) : List Segment → List (List Char)
  | [] => []
  | .expression e :: rest =>
    ("  <e".toList ++ decimal index ++ ">  ".toList ++ e.text) :: segmentLines (index + 1) rest
  | .literal text :: rest => ("  text  ".toList ++ quoted text) :: segmentLines index rest
  | .foreign value :: rest => ("  text  ".toList ++ value.display) :: segmentLines index rest

/-- The parameters of a function, and what its slots stand for. -/
def parameterLines (output : Output) : List (List Char) :=
  if output.isFunctional then
    ("Parameters: ".toList ++ joinComma output.parameters) ::
      output.slots.map fun slot => "  ".toList ++ slot.name ++ " = ".toList ++ slot.occurrence.text
  else []

/-- Every stage of a compilation. -/
def stages (config : Config) (call : Call) : Except ScriptFault (List Char) := do
  let compilation := call.compilation
  let markers := compilation.encoded.markers
  let output := compilation.output
  let segments := compilation.segments
  let rules ← output.rules.mapM (ruleScript config)
  let template ← output.script config
  .ok <| lines <|
    ["Tag:      ".toList ++ call.tag,
     "Mode:     ".toList ++
       (if compilation.asKeyframes then "keyframes".toList else "rules".toList),
     [],
     "Segments (".toList ++ decimal segments.length ++ ", ".toList ++
       decimal (segments.countP Segment.isExpression) ++ " expression(s)):".toList] ++
    segmentLines 0 segments ++
    [[],
     "Flat text:     ".toList ++ quoted (markers.displayText compilation.encoded.text),
     "Processed css: ".toList ++ quoted (markers.displayText compilation.css),
     [],
     "Rule blocks (".toList ++ decimal compilation.blocks.length ++ "):".toList] ++
    compilation.blocks.map (fun block => "  ".toList ++ markers.displayText block) ++
    [[],
     "Shape:      ".toList ++ output.shape.label] ++
    parameterLines output ++
    ["Rules:".toList] ++
    rules.map ("  ".toList ++ ·) ++
    [[],
     "Template:   ".toList ++ template]

/-! ## Progress -/

/-- A step of a compilation as a line of the log. -/
def progressLine : Progress → List Char
  | .flatText text =>
    "DEBUG stylefold.compiler.engine: Flat template text: ".toList ++ quoted text
  | .processed css => "DEBUG stylefold.compiler.engine: Processed css: ".toList ++ quoted css
  | .compiled shape rules slots =>
    "INFO stylefold.compiler.engine: Compiled template: shape=".toList ++ shape.label ++
      " rules=".toList ++ decimal rules ++ " slots=".toList ++ decimal slots

/-! ## Failures -/

/-- A fault of the source in words. The wording of a syntax error is not fixed; its place is. -/
def sourceMessage : SourceFault → List Char
  | .unreadable _ => "<parser message>".toList
  | .emptySubstitution _ => "Empty substitution".toList

/-- A fault of the source with its place. -/
def sourceFaultLine (f : SourceFault) : List Char :=
  "Parse error (line ".toList ++ decimal f.location.line ++ ", column ".toList ++
    decimal f.location.column ++ "): ".toList ++ sourceMessage f

/-- A fault of the compilation, or of the tag. -/
def callFaultLine : CallFault → List Char
  | .notStyled tag => "Error: ".toList ++ (CallFault.notStyled tag).message
  | .compile f => "Compile error [".toList ++ f.name ++ "]: ".toList ++ f.message

end CssTemplate.CommandLine
