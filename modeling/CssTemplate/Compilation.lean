import CssTemplate.Marker.Encoding
import CssTemplate.Output.Build
import CssTemplate.CssProcessor

/-!
# Compilations

A template is flattened to segments, encoded with markers, processed as CSS, cut into rule
blocks and built into an output. `compile` runs the stages and keeps every result;
`CompileFault` tells which one failed. `progress` is what a compilation has to report on its
way, as far as it gets.
-/

namespace CssTemplate

/-- Every result of one compilation. -/
structure Compilation where
  segments : List Segment
  encoded : Encoded
  css : List Char
  blocks : List (List Char)
  output : Output
  asKeyframes : Bool

/-- What compilations have in common. -/
structure Compiler where
  config : Config
  processor : CssProcessor

/-- The compiler with a given configuration and the nesting processor. -/
def Compiler.ofConfig (config : Config) : Compiler where
  config := config
  processor := .nesting config.prefixing

namespace Compiler

variable (compiler : Compiler)

/-- The segments of a template, and its encoded text. -/
def encode (template : Node) : Except CompileFault (List Segment × Encoded) := do
  let segments ←
    match template.segments with
    | .ok segments => .ok segments
    | .error f => .error (.template f)
  match ({ base := compiler.config.markerBase } : Markers).encode segments with
  | .ok encoded => .ok (segments, encoded)
  | .error f => .error (.marker f)

/-- The processed CSS of an encoded template. -/
def process (encoded : Encoded) (asKeyframes : Bool) : Except CompileFault (List Char) :=
  processCss compiler.processor encoded.text [encoded.markers.classChar] asKeyframes
    compiler.config.animationName

/-- The rule blocks of processed CSS, and the output built from them. -/
def assemble (markers : Markers) (css : List Char) (asKeyframes : Bool) :
    Except CompileFault (List (List Char) × Output) := do
  let blocks ←
    match splitBlocks css asKeyframes with
    | .ok blocks => .ok blocks
    | .error f => .error (.blocks f)
  let output ← buildOutput compiler.config markers asKeyframes blocks
  .ok (blocks, output)

/-- Compiles a template, as the body of an animation or of a rule. -/
def compile (template : Node) (asKeyframes : Bool) : Except CompileFault Compilation := do
  let (segments, encoded) ← compiler.encode template
  let css ← compiler.process encoded asKeyframes
  let (blocks, output) ← compiler.assemble encoded.markers css asKeyframes
  .ok { segments, encoded, css, blocks, output, asKeyframes }

end Compiler

/-! ## Progress -/

/-- What a compilation reports on its way. -/
inductive Progress where
  /-- The encoded text, with its markers shown by name. -/
  | flatText (text : List Char)
  /-- The processed CSS, with its markers shown by name. -/
  | processed (css : List Char)
  /-- The shape of the output and the numbers of its rules and slots. -/
  | compiled (shape : Shape) (rules slots : Nat)
  deriving DecidableEq, Repr, Inhabited

/-- What the compilation of a template reports, up to the stage that fails. -/
def Compiler.progress (compiler : Compiler) (template : Node) (asKeyframes : Bool) :
    List Progress :=
  match compiler.encode template with
  | .error _ => []
  | .ok (_, encoded) =>
    .flatText (encoded.markers.displayText encoded.text) ::
      match compiler.process encoded asKeyframes with
      | .error _ => []
      | .ok css =>
        .processed (encoded.markers.displayText css) ::
          match compiler.assemble encoded.markers css asKeyframes with
          | .error _ => []
          | .ok (_, output) =>
            [.compiled output.shape output.rules.length output.slots.length]

end CssTemplate
