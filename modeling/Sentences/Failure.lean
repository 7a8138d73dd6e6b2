import Sentences.Json.Fault
import Sentences.RulesFile
import Sentences.Text.Decimal

/-!
# Failures

Everything that can go wrong, as causes, and the one place where causes are put into words.
-/

namespace Sentences

/-- Why the contents of a file are not at hand. -/
inductive FileFault where
  | notFound
  | permissionDenied
  /-- The name goes on below something that is no directory. -/
  | notDirectory
  | isDirectory
  | nameTooLong
  /-- The bytes are not text in UTF-8. -/
  | notText
  deriving DecidableEq

/-- Why a text was not accepted. -/
inductive TextFault where
  /-- The text is no assignment. -/
  | assignment (text : Text)
  /-- The rules file has a line that it cannot have. -/
  | line (bad : BadLine)
  /-- A value that had to be there is not, in the words of who asked for it. -/
  | missing (message : Text)
  deriving DecidableEq

/-- Why no sentence came out. -/
inductive GenerationFault where
  /-- The nonterminal has a rule without alternatives. -/
  | noAlternatives (name : Text)
  /-- The nonterminal is nested as deep as the limit. -/
  | tooDeep (name : Text) (limit : UInt64)
  deriving DecidableEq

/-- What can go wrong. -/
inductive Failure where
  | file (cause : FileFault)
  | json (cause : Json.Fault)
  | text (cause : TextFault)
  | unknownStart (name : Text)
  | generation (cause : GenerationFault)
  deriving DecidableEq

/-- What is said of the file. -/
def FileFault.message : FileFault → Text
  | .notFound => "No such file or directory".toList
  | .permissionDenied => "Permission denied".toList
  | .notDirectory => "Not a directory".toList
  | .isDirectory => "Is a directory".toList
  | .nameTooLong => "File name too long".toList
  | .notText => "stream did not contain valid UTF-8".toList

/-- The number that the system gives to the fault, if the system found it. -/
def FileFault.code? : FileFault → Option Nat
  | .notFound => some 2
  | .permissionDenied => some 13
  | .notDirectory => some 20
  | .isDirectory => some 21
  | .nameTooLong => some 36
  | .notText => none

/-- That a text is no assignment. -/
def TextFault.expected (text : Text) : Text :=
  "expected `<name> ::= alternatives`, got `".toList ++ text ++ "`".toList

/-- What is wrong with the text. -/
def TextFault.message : TextFault → Text
  | .assignment text => expected text
  | .line bad => "line ".toList ++ Text.ofNat bad.number ++ ": ".toList ++ expected bad.text
  | .missing message => message

/-- The failure in words. -/
def Failure.message : Failure → Text
  | .file cause =>
    "IO error: ".toList ++ cause.message ++ match cause.code? with
      | none => []
      | some code => " (os error ".toList ++ Text.ofNat code ++ ")".toList
  | .json .malformed => "JSON error: malformed text".toList
  | .json .mismatch => "JSON error: value of another shape".toList
  | .json .truncated => "JSON error: text ends too early".toList
  | .text cause => "Parse error: ".toList ++ cause.message
  | .unknownStart name => "Unknown start symbol: ".toList ++ name.inBrackets
  | .generation (.noAlternatives name) => "Empty production set for ".toList ++ name.inBrackets
  | .generation (.tooDeep name limit) =>
    "Generation depth exceeded at ".toList ++ name.inBrackets ++ " (limit ".toList
      ++ Text.ofNat limit.toNat ++ ")".toList

/-- A value that has to be there. -/
def required {α : Type} (value : Option α) (message : Text) : Except Failure α :=
  match value with
  | some a => .ok a
  | none => .error (.text (.missing message))

/-- A result is a value after a function was applied exactly if it was one before. -/
theorem map_eq_ok_iff {ε α β : Type} {r : Except ε α} {f : α → β} {b : β} :
    r.map f = .ok b ↔ ∃ a, r = .ok a ∧ f a = b := by
  cases r with
  | error cause => simp [Except.map]
  | ok a => simp [Except.map]

/-- To apply a function to a result leaves its failure as it is. -/
theorem map_eq_error_iff {ε α β : Type} {r : Except ε α} {f : α → β} {e : ε} :
    r.map f = .error e ↔ r = .error e := by
  cases r with
  | error cause => simp [Except.map]
  | ok a => simp [Except.map]

/-- The assignment that a text makes. -/
def Assignment.ofText (text : Text) : Except Failure Assignment :=
  match Assignment.ofLine? text with
  | some assignment => .ok assignment
  | none => .error (.text (.assignment text))

/-- The contents of a file, as far as they could be had. -/
abbrev FileContents := Except FileFault Text

/-- The contents that a file's bytes stand for. -/
def FileContents.ofBytes (bytes : ByteArray) : FileContents :=
  match String.fromUTF8? bytes with
  | some text => .ok text.toList
  | none => .error .notText

/-- The rules file that the contents of a file make. -/
def RulesFile.ofContents (contents : FileContents) : Except Failure RulesFile :=
  match contents with
  | .error cause => .error (.file cause)
  | .ok text =>
    match RulesFile.ofText text with
    | .ok file => .ok file
    | .error bad => .error (.text (.line bad))

end Sentences
