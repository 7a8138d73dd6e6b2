import Sentences.Rule.Reading
import Sentences.Table
import Sentences.Vocabulary

/-!
# Grammars

A grammar has a rule for some names, the order in which the names were first defined, a start
symbol and a configuration. Names are looked up in any spelling. Two facts about the order are kept
by every way to make or change a grammar, and are not fields: it has no name twice, and it has
exactly the names with a rule.

Listings have the names of the starter grammar first, in its order, then the others as defined.
-/

namespace Sentences

/-- How sentences are made from leaves. -/
structure Config where
  /-- How deep nonterminals may nest; without a limit if `none`. -/
  maxDepth : Option UInt64 := none
  /-- Stands after every leaf. -/
  separator : Text := [' ']
  /-- Whether a sentence loses its blank ends. -/
  trim : Bool := false
  deriving DecidableEq

/-- Rules by name, with a start symbol and a configuration. -/
structure Grammar where
  rules : Table Rule := .empty
  /-- The names in the order in which they were first defined. -/
  order : List Text := []
  start : Text := Starter.start
  config : Config := {}
  deriving DecidableEq

namespace Grammar

/-! ## 1. Look-ups -/

/-- The rule of a nonterminal, in any spelling. -/
def rule? (g : Grammar) (spelling : Text) : Option Rule :=
  g.rules.get? spelling.bareName

/-- Whether a nonterminal, in any spelling, has a rule. -/
def has (g : Grammar) (spelling : Text) : Bool :=
  g.rules.contains spelling.bareName

/-- The text of a nonterminal's rule. -/
def ruleText? (g : Grammar) (spelling : Text) : Option Text :=
  (g.rule? spelling).map Rule.toText

/-! ## 2. Writes -/

/-- The grammar with one rule written. A new name goes to the end of the order. -/
def setRule (g : Grammar) (a : Assignment) : Grammar :=
  let name := a.name.bareName
  { g with
    rules := g.rules.insert name (Rule.ofText a.text)
    order := if g.rules.contains name then g.order else g.order ++ [name] }

/-- A write changes the rule of its own name and of no other. -/
theorem get?_setRule (g : Grammar) (a : Assignment) (name : Text) :
    (g.setRule a).rules.get? name =
      if name = a.name.bareName then some (Rule.ofText a.text) else g.rules.get? name :=
  Table.get?_insert g.rules a.name.bareName (Rule.ofText a.text) name

/-- The grammar with several rules written, one after another. -/
def setRules (g : Grammar) (assignments : List Assignment) : Grammar :=
  assignments.foldl setRule g

/-- The grammar with the rules of the four lexical categories written. -/
def setWords (g : Grammar) (words : Vocabulary) : Grammar :=
  g.setRules words.assignments

/-- The grammar with another start symbol, in any spelling. -/
def setStart (g : Grammar) (spelling : Text) : Grammar :=
  { g with start := spelling.bareName }

/-- The grammar with another configuration. -/
def setConfig (g : Grammar) (config : Config) : Grammar :=
  { g with config }

/-! ## 3. Grammars to begin with -/

/-- The grammar without rules. -/
def empty : Grammar := {}

/-- The grammar with the given rules, written one after another. -/
def ofRules (assignments : List Assignment) : Grammar :=
  empty.setRules assignments

/-- The starter grammar with the given vocabulary. -/
def starter (words : Vocabulary) : Grammar :=
  (empty.setRules Starter.shape).setWords words

/-! ## 4. Listings -/

/-- The names with a rule: those of the starter grammar, then the others as defined. -/
def names (g : Grammar) : List Text :=
  Starter.names.filter g.rules.contains ++ g.order.filter fun name => !Starter.names.contains name

/-- The line of a listing for one name; nothing if it has no rule. -/
def displayLine (g : Grammar) (name : Text) : Text :=
  match g.rules.get? name with
  | none => []
  | some rule => name.inBrackets ++ ':' :: rule.display ++ ['\n']

/-- The listing: a line for every name. -/
def display (g : Grammar) : Text :=
  g.names.flatMap g.displayLine

end Grammar

end Sentences
