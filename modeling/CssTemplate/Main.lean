import CssTemplate.CommandLine.Run

/-!
# The program

The command line as a program: it looks at the file system, runs `CommandLine.run`, and writes
what that returns.
-/

namespace CssTemplate.CommandLine

/-- What is found under a name. -/
def lookUp (name : String) : IO Entry := do
  try
    return .file (← IO.FS.readBinFile name)
  catch
    | .noFileOrDirectory .. => return .missing
    | _ => return .directory

/-- Looks up every argument that could be the name of a file. -/
def lookUpAll (arguments : List String) : IO (List (List Char × Entry)) :=
  arguments.mapM fun name => return (name.toList, ← lookUp name)

end CssTemplate.CommandLine

open CssTemplate.CommandLine in
/-- The program. -/
def main (arguments : List String) : IO UInt32 := do
  let entries ← lookUpAll arguments
  let files := fun name => (entries.lookup name).getD .missing
  match run files (arguments.map String.toList) with
  | .exit code stdout stderr =>
    IO.eprint (String.ofList stderr)
    IO.print (String.ofList stdout)
    return code.toUInt32
  | .undecodable =>
    IO.eprintln "The file is not UTF-8."
    return 1
