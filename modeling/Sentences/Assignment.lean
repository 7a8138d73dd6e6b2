import Sentences.Text.Name

/-!
# Assignments

An assignment gives a nonterminal its rule text. It is written `<name> ::= text` or `name = text`:

* white space, perhaps an opening bracket, the name, perhaps a closing bracket, white space;
* `::=` or `=`, white space, the body up to the end, with no line feed in it.

A name has at least one character, and none that is blank, a bracket, an equals sign or a colon.
The brackets need not match: either may be left out. The text is the trimmed body.
-/

namespace Sentences

/-- A nonterminal, as spelled, and the rule text given to it. -/
structure Assignment where
  name : Text
  text : Text
  deriving DecidableEq

namespace Text

/-- The text without one given character at its start, if that is how it starts. -/
def skipMark (mark : Char) : Text → Text
  | [] => []
  | c :: rest => if c = mark then rest else c :: rest

/-- What follows one of two separators, `::=` and `=`. -/
def afterAssign? : Text → Option Text
  | ':' :: ':' :: '=' :: rest => some rest
  | '=' :: rest => some rest
  | _ => none

/-- A character that may stand in the name of an assignment. -/
def isNameChar (c : Char) : Bool :=
  !isBlank c && c != openMark && c != closeMark && c != '=' && c != ':'

end Text

namespace Assignment

/-- The assignment that a line makes, if it has the form of one. -/
def ofLine? (line : Text) : Option Assignment :=
  let opened : Text := line.trimStart.skipMark openMark
  let name : Text := opened.takeWhile Text.isNameChar
  let closed : Text := Text.skipMark closeMark (opened.dropWhile Text.isNameChar)
  match closed.trimStart.afterAssign? with
  | none => none
  | some rest =>
    let body : Text := rest.trimStart
    if name = [] ∨ '\n' ∈ body then none else some ⟨name, body.trim⟩

end Assignment

end Sentences
