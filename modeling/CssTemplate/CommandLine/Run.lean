import CssTemplate.CommandLine.Report
import CssTemplate.CommandLine.Terminal
import CssTemplate.Text.Decimal

/-!
# Running the program

`run` is the whole program as a function: from the arguments and a view of the file system to
what is written and the exit code. Exit codes are 0 for success, 1 for a template that cannot be
compiled, and 2 for a command line that is not understood.
-/

namespace CssTemplate.CommandLine

/-- What is found under a name in the file system. -/
inductive Entry where
  | missing
  | directory
  | file (bytes : ByteArray)

/-- How the program ends. -/
inductive Outcome where
  | exit (code : Nat) (stdout stderr : List Char)
  /-- The file is not UTF-8. -/
  | undecodable
  deriving DecidableEq, Repr, Inhabited

/-- A usage error. -/
def usageOutcome (command : Option Command) (f : UsageFault) : Outcome :=
  .exit 2 [] (written (usageMessage command f))

/-- A text with its line ends written as line feeds. -/
def universalNewlines : List Char → List Char
  | [] => []
  | '\r' :: '\n' :: rest => '\n' :: universalNewlines rest
  | c :: rest => (if c = '\r' then '\n' else c) :: universalNewlines rest

/-- The marker base that is asked for. -/
def readMarkerBase (o : Options) : Except UsageFault Int :=
  match o.markerBase with
  | none => .ok ({} : Settings).markerBase
  | some text =>
    match readInteger? text with
    | some base => .ok base
    | none => .error (.notInteger text)

/-- The bytes of the file that is asked for. -/
def readFile (files : List Char → Entry) (o : Options) : Except UsageFault ByteArray :=
  match o.positional with
  | [] => .error .missingFile
  | name :: extra =>
    match files name with
    | .missing => .error (.noSuchFile name)
    | .directory => .error (.isDirectory name)
    | .file bytes => if extra.isEmpty then .ok bytes else .error (.extraArguments extra)

/-- The configuration that is asked for. -/
def readConfig (base : Int) (o : Options) : Except UsageFault Config :=
  match ({ markerBase := base, prefixing := !o.noPrefixes } : Settings).validate with
  | .ok config => .ok config
  | .error f => .error (.settings f)

/-- What a command prints about a call. -/
def commandText (command : Command) (config : Config) (call : Call) :
    Except ScriptFault (List Char) :=
  match command with
  | .compile => (call.script config).map line
  | .inspect => stages config call

/-- What the compilation of a template reports, when it is asked to. -/
def logText (compiler : Compiler) (o : Options) (tagged : Tagged) : List Char :=
  match callKind tagged.tag o.keyframes with
  | .error _ => []
  | .ok kind =>
    if o.verbose then
      lines ((compiler.progress tagged.template.toNode (kind = .keyframes)).map progressLine)
    else []

/-- Runs a command on the source of a template. -/
def runSource (command : Command) (config : Config) (o : Options) (source : List Char) : Outcome :=
  match Tagged.read source with
  | .error f => .exit 1 [] (written (line (sourceFaultLine f)))
  | .ok tagged =>
    let compiler := Compiler.ofConfig config
    let log := logText compiler o tagged
    match compiler.call tagged.tag tagged.template.toNode o.keyframes with
    | .error f => .exit 1 [] (log ++ written (line (callFaultLine f)))
    | .ok call =>
      match commandText command config call with
      | .error f => .exit 1 [] (log ++ written (line f.message))
      | .ok text => .exit 0 (written text) log

/-- Runs a command with the options that are given to it. The marker base is looked at before
the file, and its range after it. -/
def runCommand (files : List Char → Entry) (command : Command) (o : Options) : Outcome :=
  let read := do
    let base ← readMarkerBase o
    let bytes ← readFile files o
    let config ← readConfig base o
    .ok (config, bytes)
  match read with
  | .error f => usageOutcome (some command) f
  | .ok (config, bytes) =>
    match String.fromUTF8? bytes with
    | none => .undecodable
    | some text => runSource command config o (universalNewlines text.toList)

/-- Runs the program. -/
def run (files : List Char → Entry) (arguments : List (List Char)) : Outcome :=
  if arguments.isEmpty then .exit 2 [] programHelp
  else
    match readInvocation arguments with
    | .error f => usageOutcome none f
    | .ok .help => .exit 0 programHelp []
    | .ok .version => .exit 0 versionText []
    | .ok (.command command arguments) =>
      match readArguments arguments {} with
      | .error f => usageOutcome (some command) f
      | .ok o => if o.help then .exit 0 (commandHelp command) [] else runCommand files command o

end CssTemplate.CommandLine
