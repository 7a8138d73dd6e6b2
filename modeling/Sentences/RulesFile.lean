import Sentences.Assignment

/-!
# Rules files

A rules file has one item a line. Lines are trimmed first; blank lines and lines that start with
`#` say nothing. A line `@start = <name>` chooses the start symbol, and of several the last one
counts. Every other line is an assignment. The first line that is none of these is the file's
fault, and it is reported with its number, counted from one.
-/

namespace Sentences

/-- What a rules file says: a start symbol, perhaps, and assignments in the order of the file. -/
structure RulesFile where
  start : Option Text := none
  rules : List Assignment := []
  deriving DecidableEq

/-- A line, trimmed, that a rules file cannot have, and its number. -/
structure BadLine where
  number : Nat
  text : Text
  deriving DecidableEq

namespace RulesFile

/-! ## 1. One line -/

/-- What one line says. -/
inductive Item where
  | nothing
  | start (name : Text)
  | rule (assignment : Assignment)
  deriving DecidableEq

/-- A character that may stand in the name of a start directive. -/
def isStartChar (c : Char) : Bool :=
  !Text.isBlank c && c != openMark && c != closeMark

/-- The word that starts a start directive. -/
def startWord : Text := "@start".toList

/-- What a text goes on with after a word, if it starts with it. -/
def afterWord? (word t : Text) : Option Text :=
  if word.isPrefixOf t then some (t.drop word.length) else none

/-- The name that a trimmed line chooses as the start symbol, if it is a start directive. -/
def startName? (line : Text) : Option Text :=
  match afterWord? startWord line with
  | none => none
  | some rest =>
    match afterWord? ['='] rest.trimStart with
    | none => none
    | some value =>
      let opened : Text := value.trimStart.skipMark openMark
      let name : Text := opened.takeWhile isStartChar
      let closed : Text := Text.skipMark closeMark (opened.dropWhile isStartChar)
      if name ≠ [] ∧ closed.allBlank then some name else none

/-- What a trimmed line says; `none` for a line that a rules file cannot have. -/
def Item.ofLine? (line : Text) : Option Item :=
  if line = [] ∨ line.head? = some '#' then some .nothing
  else match startName? line with
    | some name => some (.start name)
    | none => (Assignment.ofLine? line).map .rule

/-! ## 2. All lines -/

/-- A file that says one thing more, before all that it says. -/
def cons : Item → RulesFile → RulesFile
  | .nothing, file => file
  | .start name, file => { file with start := file.start.or (some name) }
  | .rule assignment, file => { file with rules := assignment :: file.rules }

/-- What a list of lines says, the first of which has the given number. -/
def ofLines (number : Nat) : List Text → Except BadLine RulesFile
  | [] => .ok {}
  | line :: rest =>
    match Item.ofLine? line.trim with
    | none => .error ⟨number, line.trim⟩
    | some item => (ofLines (number + 1) rest).map (cons item)

/-- What a text says as a rules file. -/
def ofText (contents : Text) : Except BadLine RulesFile :=
  ofLines 1 contents.lines

/-- A file followed by another: the start symbol of the second counts, if it has one. -/
def append (a b : RulesFile) : RulesFile :=
  ⟨b.start.or a.start, a.rules ++ b.rules⟩

end RulesFile

end Sentences
