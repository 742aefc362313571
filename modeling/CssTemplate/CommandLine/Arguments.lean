import CssTemplate.Config
import CssTemplate.Text.Similarity

/-!
# Arguments of the command line

The program has two commands. Options start with a hyphen and may stand before or after the
name of the file; after `--` everything is an argument. `readArguments` reads what follows the
name of a command, `readGroup` the options before it, and `readInvocation` finds the command. A
name that is not known is reported with the known names that are close to it.
-/

namespace CssTemplate.CommandLine

/-- The commands of the program. -/
inductive Command where
  | compile
  | inspect
  deriving DecidableEq, Repr, Inhabited

/-- The name of a command. -/
def Command.label : Command → List Char
  | .compile => "compile".toList
  | .inspect => "inspect".toList

/-- All commands, in the order of their names. -/
def Command.all : List Command :=
  [.compile, .inspect]

/-- The command with a given name. -/
def Command.ofName? (name : List Char) : Option Command :=
  Command.all.find? fun command => command.label == name

/-- Why the command line is not understood. -/
inductive UsageFault where
  /-- An option that there is not, with the names that it may stand for. -/
  | noSuchOption (name : List Char) (similar : List (List Char))
  | needsValue (name : List Char)
  | takesNoValue (name : List Char)
  /-- A command that there is not, with the names that it may stand for. -/
  | noSuchCommand (name : List Char) (similar : List (List Char))
  | missingCommand
  | missingFile
  | noSuchFile (name : List Char)
  | isDirectory (name : List Char)
  | notInteger (value : List Char)
  | settings (fault : SettingsFault)
  | extraArguments (arguments : List (List Char))
  deriving DecidableEq, Repr, Inhabited

/-- What a mistyped name may stand for, in words. -/
def suggestion : List (List Char) → List Char
  | [] => []
  | [name] => " Did you mean ".toList ++ quoted name ++ ['?']
  | names =>
    " (Did you mean one of: ".toList ++ [',', ' '].intercalate (names.map quoted) ++ ['?', ')']

/-- The fault in words. -/
def UsageFault.message : UsageFault → List Char
  | .noSuchOption name similar =>
    "No such option ".toList ++ quoted name ++ '.' :: suggestion similar
  | .needsValue name => "Option ".toList ++ quoted name ++ " requires an argument.".toList
  | .takesNoValue name => "Option ".toList ++ quoted name ++ " does not take a value.".toList
  | .noSuchCommand name similar =>
    "No such command ".toList ++ quoted name ++ '.' :: suggestion similar
  | .missingCommand => "Missing command.".toList
  | .missingFile => "Missing argument 'TEMPLATE_FILE'.".toList
  | .noSuchFile name =>
    "Invalid value for 'TEMPLATE_FILE': File ".toList ++ quoted name ++ " does not exist.".toList
  | .isDirectory name =>
    "Invalid value for 'TEMPLATE_FILE': File ".toList ++ quoted name ++ " is a directory.".toList
  | .notInteger value =>
    "Invalid value for '--marker-base': ".toList ++ quoted value ++
      " is not a valid integer.".toList
  | .settings f => "Invalid value for --marker-base: ".toList ++ f.message
  | .extraArguments arguments =>
    "Got unexpected extra argument".toList ++ (if arguments.length = 1 then [] else ['s']) ++
      ' ' :: '(' :: [' '].intercalate arguments ++ [')']

/-- Whether the fault is reported together with how the program is called. One in the value of an
option is reported alone. -/
def UsageFault.showsUsage : UsageFault → Bool
  | .needsValue _ => false
  | .takesNoValue _ => false
  | _ => true

/-! ## Options -/

/-- Whether an argument is an option. A hyphen alone is none. -/
def isOption : List Char → Bool
  | '-' :: _ :: _ => true
  | _ => false

/-- The name of an option, and the value that an equals sign attaches to it. -/
def splitValue (argument : List Char) : List Char × Option (List Char) :=
  match argument.dropWhile (· != '=') with
  | [] => (argument, none)
  | _ :: value => (argument.takeWhile (· != '='), some value)

/-- What is given to a command. -/
structure Options where
  keyframes : Bool := false
  noPrefixes : Bool := false
  verbose : Bool := false
  help : Bool := false
  /-- The text given as the marker base. -/
  markerBase : Option (List Char) := none
  positional : List (List Char) := []
  deriving DecidableEq, Repr, Inhabited

/-- The names of a command's options, in alphabetical order. -/
def optionNames : List (List Char) :=
  ["--help".toList, "--keyframes".toList, "--marker-base".toList, "--no-prefix".toList,
   "--verbose".toList]

/-- The options of a command that take no value. -/
def setFlag? (name : List Char) (o : Options) : Option Options :=
  if name = "--keyframes".toList then some { o with keyframes := true }
  else if name = "--no-prefix".toList then some { o with noPrefixes := true }
  else if name = "--verbose".toList then some { o with verbose := true }
  else if name = "--help".toList then some { o with help := true }
  else none

/-- Letters after a single hyphen: `v` is the only one that there is. -/
def setLetters : List Char → Options → Except UsageFault Options
  | [], o => .ok o
  | c :: rest, o =>
    if c = 'v' then setLetters rest { o with verbose := true }
    else .error (.noSuchOption ['-', c] [])

/-- The option that takes a value. -/
def markerBaseOption : List Char :=
  "--marker-base".toList

/-- Reads an option other than the one that takes a value. -/
def setOption (argument : List Char) (o : Options) : Except UsageFault Options :=
  let (name, value) := splitValue argument
  match setFlag? name o, value with
  | some o, none => .ok o
  | some _, some _ => .error (.takesNoValue name)
  | none, _ =>
    if ['-', '-'].isPrefixOf argument then
      .error (.noSuchOption name (closeMatches optionNames name))
    else setLetters (argument.drop 1) o

/-- Reads the arguments of a command. -/
def readArguments : List (List Char) → Options → Except UsageFault Options
  | [], o => .ok o
  | argument :: rest, o =>
    if argument = ['-', '-'] then .ok { o with positional := o.positional ++ rest }
    else if !isOption argument then
      readArguments rest { o with positional := o.positional ++ [argument] }
    else if (splitValue argument).1 = markerBaseOption then
      match (splitValue argument).2 with
      | some value => readArguments rest { o with markerBase := some value }
      | none =>
        match rest with
        | [] => .error (.needsValue markerBaseOption)
        | value :: rest => readArguments rest { o with markerBase := some value }
    else do
      let o ← setOption argument o
      readArguments rest o

/-! ## Before the command -/

/-- What the options before the command ask for, or else what follows them. -/
inductive Request where
  | help
  | version
  | arguments (arguments : List (List Char))
  deriving DecidableEq, Repr, Inhabited

/-- The names of the options before the command, in alphabetical order. -/
def groupOptionNames : List (List Char) :=
  ["--help".toList, "--version".toList]

/-- The request that an option before the command makes. -/
def requestOf? (name : List Char) : Option Request :=
  if name = "--help".toList then some .help
  else if name = "--version".toList then some .version
  else none

/-- The fault of an argument that is no option before the command. -/
def noSuchGroupOption (argument name : List Char) : UsageFault :=
  if ['-', '-'].isPrefixOf argument then
    .noSuchOption name (closeMatches groupOptionNames name)
  else .noSuchOption (argument.take 2) []

/-- Reads the options before the command; the first request for help or the version wins, after
all options have been read. -/
def readGroup (asked : Option Request) : List (List Char) → Except UsageFault Request
  | [] => .ok (asked.getD (.arguments []))
  | argument :: rest =>
    if argument = ['-', '-'] then .ok (asked.getD (.arguments rest))
    else if !isOption argument then .ok (asked.getD (.arguments (argument :: rest)))
    else
      let (name, value) := splitValue argument
      match requestOf? name, value with
      | some request, none => readGroup (asked <|> some request) rest
      | some _, some _ => .error (.takesNoValue name)
      | none, _ => .error (noSuchGroupOption argument name)

/-- What the program is asked to do. -/
inductive Invocation where
  | help
  | version
  | command (command : Command) (arguments : List (List Char))
  deriving DecidableEq, Repr, Inhabited

/-- Finds the command. A name that belongs to none is read once more as an option, also after
`--`, before it is refused. -/
def readInvocation (arguments : List (List Char)) : Except UsageFault Invocation := do
  match ← readGroup none arguments with
  | .help => .ok .help
  | .version => .ok .version
  | .arguments [] => .error .missingCommand
  | .arguments (name :: rest) =>
    match Command.ofName? name with
    | some command => .ok (.command command rest)
    | none =>
      match ← readGroup none (name :: rest) with
      | .help => .ok .help
      | .version => .ok .version
      | .arguments _ =>
        .error (.noSuchCommand name (closeMatches (Command.all.map Command.label) name))

end CssTemplate.CommandLine
