import CssTemplate.CommandLine.Arguments

/-!
# Help texts

The texts that explain how the program is called, and the message for a command line that is not
understood.
-/

namespace CssTemplate.CommandLine

/-- A line with its end. -/
def line (text : List Char) : List Char :=
  text ++ ['\n']

/-- Lines in a row. -/
def lines (texts : List (List Char)) : List Char :=
  texts.flatMap line

/-- How a command is called; without one, how the program is called. -/
def usage : Option Command → List Char
  | none => "Usage: cli [OPTIONS] COMMAND [ARGS]...".toList
  | some command => "Usage: cli ".toList ++ command.label ++ " [OPTIONS] TEMPLATE_FILE".toList

/-- What a command does. -/
def summary : Command → List (List Char)
  | .compile => ["  Compile a tagged template file and print the JavaScript call replacing it.".toList]
  | .inspect =>
    ["  Compile a tagged template file and display each intermediate stage.".toList,
     [],
     "  Markers are shown as <cls> for the class name and <eN> for expressions.".toList]

/-- The help text of a command. -/
def commandHelp (command : Command) : List Char :=
  lines (usage (some command) :: [] :: summary command ++
    [[],
     "Options:".toList,
     "  --keyframes            Compile an untagged template as a keyframes body".toList,
     "  --no-prefix            Skip the vendor-prefixing pass".toList,
     "  --marker-base INTEGER  First code point reserved for markers  [default: 230]".toList,
     "  -v, --verbose          Log compilation stages".toList,
     "  --help                 Show this message and exit.".toList])

/-- The help text of the program. -/
def programHelp : List Char :=
  lines
    [usage none,
     [],
     "  Stylefold - compile tagged CSS templates into compact rule builders.".toList,
     [],
     "Options:".toList,
     "  --version  Show the version and exit.".toList,
     "  --help     Show this message and exit.".toList,
     [],
     "Commands:".toList,
     "  compile  Compile a tagged template file and print the JavaScript call...".toList,
     "  inspect  Compile a tagged template file and display each intermediate stage.".toList]

/-- The version of the program. -/
def versionText : List Char :=
  line "stylefold, version 0.1.0".toList

/-- How a command is called, and where there is help. -/
def usageHint (command : Option Command) : List (List Char) :=
  let called :=
    match command with
    | none => "cli".toList
    | some command => "cli ".toList ++ command.label
  [usage command, "Try '".toList ++ called ++ " --help' for help.".toList, []]

/-- The message for a command line that is not understood. -/
def usageMessage (command : Option Command) (f : UsageFault) : List Char :=
  lines ((if f.showsUsage then usageHint command else []) ++ ["Error: ".toList ++ f.message])

end CssTemplate.CommandLine
