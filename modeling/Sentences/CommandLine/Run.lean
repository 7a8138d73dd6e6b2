import Sentences.CommandLine.Arguments
import Sentences.Generation
import Sentences.Draws.Seeded
import Sentences.Grammar.Edit
import Sentences.Grammar.Json
import Sentences.Text.Literal

/-!
# Running a command

What a run of the program writes, and its exit status, as a function of the arguments, the files
and a seed for runs that are given none.

The grammar is loaded in layers, each of which overwrites the one before: the starter grammar (or
none), the rules file, the four word options, the `--rule` options in order, and the start symbol,
which must have a rule in the end. The first layer that fails decides.
-/

namespace Sentences

/-! ## 1. Failures for the error stream -/

/-- The class of a fault of a file. -/
def FileFault.kind : FileFault → Text
  | .notFound => "NotFound".toList
  | .permissionDenied => "PermissionDenied".toList
  | .notDirectory => "NotADirectory".toList
  | .isDirectory => "IsADirectory".toList
  | .nameTooLong => "InvalidFilename".toList
  | .notText => "InvalidData".toList

/-- A fault of a file, field by field. -/
def FileFault.inspect (f : FileFault) : Text :=
  (match f.code? with
    | none => "Error \x7b kind: ".toList
    | some code => "Os \x7b code: ".toList ++ Text.ofNat code ++ ", kind: ".toList)
  ++ f.kind ++ ", message: ".toList ++ f.message.literal ++ " \x7d".toList

/-- A failure, field by field. -/
def Failure.inspect : Failure → Text
  | .file cause => "Io(".toList ++ cause.inspect ++ ")".toList
  | .json cause => "Json(".toList ++ (Failure.json cause).message.literal ++ ")".toList
  | .text cause => "Parse(".toList ++ cause.message.literal ++ ")".toList
  | .unknownStart name => "UnknownStartSymbol(".toList ++ name.literal ++ ")".toList
  | .generation (.noAlternatives name) => "EmptyProductionSet(".toList ++ name.literal ++ ")".toList
  | .generation (.tooDeep name limit) =>
    "GenerationDepthExceeded \x7b symbol: ".toList ++ name.literal ++ ", limit: ".toList
      ++ Text.ofNat limit.toNat ++ " \x7d".toList

namespace CommandLine

/-! ## 2. Loading the grammar -/

namespace Arguments

/-- The configuration that the options give; a depth limit of zero is none. -/
def config (a : Arguments) : Config :=
  { maxDepth := some (a.maxDepth.getD 1000) |>.filter (· != 0), trim := a.trim }

/-- The word options that are given, as assignments. -/
def words (a : Arguments) : List Assignment :=
  [("noun".toList, a.nouns), ("verb".toList, a.verbs), ("prep".toList, a.preps),
   ("article".toList, a.articles)].filterMap fun w => w.2.map (Assignment.mk w.1)

/-- The grammar before any file is applied. -/
def base (a : Arguments) : Grammar :=
  (if a.noDefaults then Grammar.empty else Grammar.starter {}).setConfig a.config

/-- The grammar after the rules file, if one is given. -/
def withFile (a : Arguments) (files : Text → FileContents) (g : Grammar) : Except Failure Grammar :=
  match a.grammar with
  | none => .ok g
  | some name => g.applyFile (files name)

/-- The assignments that the `--rule` options make. -/
def overrides (a : Arguments) : Except Failure (List Assignment) :=
  a.rules.mapM Assignment.ofText

/-- The grammar with the start symbol that is asked for, if one is. -/
def withStart (a : Arguments) (g : Grammar) : Grammar :=
  match a.start with
  | none => g
  | some start => g.setStart start

/-- The grammar that the options describe. -/
def load (a : Arguments) (files : Text → FileContents) : Except Failure Grammar := do
  let g ← a.withFile files a.base
  let overrides ← a.overrides
  (a.withStart ((g.setRules a.words).setRules overrides)).checkStart

end Arguments

/-! ## 3. Reports -/

/-- What a run writes, and its exit status. -/
structure Report where
  status : Nat := 0
  output : Text := []
  errors : Text := []

/-- A text as a line. -/
def line (t : Text) : Text :=
  t ++ ['\n']

/-- The report of a run that failed after some output. -/
def Report.failed (output : Text) (cause : Failure) : Report :=
  ⟨1, output, "Error: ".toList ++ line cause.inspect⟩

/-- The rules of the starter grammar, one a line. -/
def starterListing : Text :=
  (Starter.assignments {}).flatMap fun a =>
    line (a.name.inBrackets ++ " ::= ".toList ++ a.text)

/-- Sentences, one a line, up to the first failure. -/
def generateReport (g : Grammar) (draws : Draws) (fuel count : Nat) : Option Report :=
  (g.generateUntilFailure draws fuel g.start count 0).map fun
    | (texts, none) => { output := texts.flatMap line }
    | (texts, some cause) => .failed (texts.flatMap line) (.generation cause)

/-- What a run does once its arguments are read; `none` when out of fuel. -/
def perform (files : Text → FileContents) (entropy : UInt64) (fuel : Nat) (a : Arguments) :
    Command → Option Report
  | .starterRules => some { output := starterListing }
  | .display json =>
    match a.load files with
    | .error cause => some (.failed [] cause)
    | .ok g => some { output := if json then line g.jsonText else g.display }
  | .generate =>
    match a.load files with
    | .error cause => some (.failed [] cause)
    | .ok g => generateReport g (Draws.ofSeed (a.seed.getD entropy)) fuel (a.count.getD 1).toNat

/-- The name and version of the program. -/
def versionText : Text := "sentence-gen 0.1.0".toList

/-- How the program is called. -/
def usageText : Text :=
  "Usage: sentence-gen [OPTIONS] [rules | show [--json]]".toList

/-- What a run of the program does; `none` when out of fuel. -/
def run (files : Text → FileContents) (entropy : UInt64) (fuel : Nat) (arguments : List Text) :
    Option Report :=
  match Request.ofArguments arguments with
  | .run a command => perform files entropy fuel a command
  | .version => some { output := line versionText }
  | .help => some { output := line usageText }
  | .usage => some { status := 2, errors := line usageText }

end CommandLine

end Sentences
