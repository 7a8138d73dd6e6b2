import Sentences.Text.Basic

/-!
# Names of nonterminals

A nonterminal may be named with or without its brackets: `<noun>` and `noun` name the same one.
`bareName` takes any spelling to the name under which the rule is stored. A lone bracket, on
either side, is part of the name.
-/

namespace Sentences

/-- Opens a reference to a nonterminal. -/
def openMark : Char := '<'

/-- Closes a reference to a nonterminal. -/
def closeMark : Char := '>'

/-- Stands between two alternatives of a rule. -/
def alternativeMark : Char := ','

namespace Text

/-- What stands between an opening bracket at the start of a text and a closing one at its end. -/
def bracketed? : Text → Option Text
  | [] => none
  | c :: rest =>
    if c = openMark ∧ rest.getLast? = some closeMark then some rest.dropLast else none

/-- The name that a spelling stands for: trimmed, and without its pair of brackets if it has one. -/
def bareName (t : Text) : Text :=
  (bracketed? t.trim).getD t.trim

/-- A name in its brackets. -/
def inBrackets (name : Text) : Text :=
  openMark :: name ++ [closeMark]

@[simp] theorem bracketed?_inBrackets (name : Text) : bracketed? (inBrackets name) = some name := by
  simp [bracketed?, inBrackets]

end Text

end Sentences
