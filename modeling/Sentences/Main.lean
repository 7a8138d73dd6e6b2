import Sentences.CommandLine.Run

/-!
# The program

Reads the arguments, the rules file that they name and a seed from the system, and writes the
report of the run.
-/

namespace Sentences.CommandLine

/-- The contents of a file on disk. -/
def readContents (path : String) : IO FileContents := do
  try
    return .ofBytes (← IO.FS.readBinFile path)
  catch
    | .noFileOrDirectory .. => return .error .notFound
    | .permissionDenied .. => return .error .permissionDenied
    | .inappropriateType none .. => return .error .isDirectory
    | .inappropriateType (some _) .. => return .error .notDirectory
    | .invalidArgument .. => return .error .nameTooLong
    | other => throw other

/-- The contents of the rules file that the arguments name, if they name one and it is wanted. -/
def namedContents (arguments : List Text) : IO FileContents :=
  match Request.ofArguments arguments with
  | .run { grammar := some path, .. } .generate
  | .run { grammar := some path, .. } (.display _) => readContents (String.ofList path)
  | _ => return .error .notFound

/-- Runs the program and gives its exit status. -/
def execute (arguments : List Text) : IO UInt32 := do
  let contents ← namedContents arguments
  let bytes ← IO.getRandomBytes 8
  let entropy := bytes.foldl (fun n b => 256 * n + b.toUInt64) 0
  match run (fun _ => contents) entropy (1 <<< 62) arguments with
  | none =>
    IO.eprintln "out of fuel"
    return 1
  | some report =>
    IO.print (String.ofList report.output)
    IO.eprint (String.ofList report.errors)
    return report.status.toUInt32

end Sentences.CommandLine

def main (arguments : List String) : IO UInt32 :=
  Sentences.CommandLine.execute (arguments.map String.toList)
