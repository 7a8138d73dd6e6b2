import Sentences.Text.Name

/-!
# Symbols, productions and rules

A rule is a list of alternatives, a production a list of symbols, and a symbol is terminal text or
the name of a nonterminal. Two ways to write them down:

* `toText`, the text that a rule is edited as: symbols side by side, a comma and a space between
  two alternatives;
* `display`, for listings: a plus sign between two symbols, a bar between two alternatives.
-/

namespace Sentences

/-- A symbol of a production. -/
inductive Symbol where
  /-- Text that goes into the sentence as it stands. -/
  | terminal (text : Text)
  /-- A reference to a nonterminal, without its brackets. -/
  | nonterminal (name : Text)
  deriving DecidableEq

/-- One alternative of a rule. -/
structure Production where
  symbols : List Symbol := []
  deriving DecidableEq

/-- The alternatives of one nonterminal, in the order they were written. -/
structure Rule where
  productions : List Production := []
  deriving DecidableEq

/-- A terminal is written as it is, a reference in its brackets. -/
def Symbol.toText : Symbol → Text
  | .terminal text => text
  | .nonterminal name => name.inBrackets

/-- The symbols of a production side by side. -/
def Production.toText (p : Production) : Text :=
  p.symbols.flatMap Symbol.toText

/-- The symbols of a production with a plus sign between two of them. -/
def Production.display (p : Production) : Text :=
  ['+'].intercalate (p.symbols.map Symbol.toText)

/-- The alternatives of a rule with a comma and a space between two of them. -/
def Rule.toText (r : Rule) : Text :=
  [alternativeMark, ' '].intercalate (r.productions.map Production.toText)

/-- The alternatives of a rule, a space before the first and a bar between two of them. -/
def Rule.display (r : Rule) : Text :=
  match r.productions with
  | [] => []
  | first :: rest => ' ' :: first.display ++ rest.flatMap fun p => " | ".toList ++ p.display

/-- Several alternatives with a bar between two of them: the first, then each other behind a bar. -/
theorem Production.intercalate_display (first : Production) (rest : List Production) :
    " | ".toList.intercalate ((first :: rest).map display) =
      first.display ++ rest.flatMap fun p => " | ".toList ++ p.display := by
  induction rest generalizing first with
  | nil =>
    rw [List.map_singleton, List.intercalate_singleton, List.flatMap_nil, List.append_nil]
  | cons next rest ih =>
    have hbehind := ih next
    rw [List.map_cons] at hbehind
    rw [List.map_cons, List.map_cons, List.intercalate_cons_cons, hbehind, List.flatMap_cons,
      List.append_assoc, List.append_assoc]

/-- A rule without alternatives shows nothing, any other a space and its alternatives. -/
theorem Rule.display_eq (r : Rule) : r.display =
    if r.productions = [] then []
    else ' ' :: " | ".toList.intercalate (r.productions.map Production.display) := by
  obtain ⟨_ | ⟨first, rest⟩⟩ := r
  · rfl
  · rw [if_neg (List.cons_ne_nil first rest), Production.intercalate_display]
    rfl

end Sentences
