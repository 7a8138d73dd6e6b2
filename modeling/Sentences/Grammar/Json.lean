import Sentences.Failure
import Sentences.Grammar.Basic
import Sentences.Json.Reader
import Sentences.Json.Value

/-!
# Grammars as JSON

A grammar is written with its rules in the order of their names, then the order of definition, the
start symbol and the configuration. What is read need not come from what was written: the order of
definition is repaired against the rules, so that it has exactly the names with a rule, each once.
-/

namespace Sentences

open Json (Fault Reader Value)
open Json.Reader (RecordField record)

/-! ## 1. Symbols, productions, rules -/

/-- The key of a terminal symbol. -/
def terminalKey : Text := "Terminal".toList

/-- The key of a reference. -/
def nonterminalKey : Text := "NonTerminal".toList

/-- A symbol is an object with one member. -/
def Symbol.toJson : Symbol → Value
  | .terminal text => .object [(terminalKey, .string text)]
  | .nonterminal name => .object [(nonterminalKey, .string name)]

/-- The kind of symbol that a key announces. -/
def Symbol.ofKey? (key : Text) : Option (Text → Symbol) :=
  if key = terminalKey then some .terminal
  else if key = nonterminalKey then some .nonterminal
  else none

/-- Reads a symbol. A bare string is seen to be one and refused; other values are malformed, and
so is an object whose first member does not begin with a quote. -/
def Symbol.reader : Reader Symbol := do
  match ← Json.Reader.mustGoOn with
  | '\x7b' =>
    Json.Reader.advance
    match Symbol.ofKey? (← Json.Reader.key) with
    | none => throw .mismatch
    | some make =>
      Json.Reader.colon
      let text ← Json.Reader.string
      Json.Reader.close '\x7d'
      return make text
  | '"' => Json.Reader.mismatch
  | _ => throw .malformed

/-- The key of a production's symbols. -/
def symbolsKey : Text := "symbols".toList

/-- A production is a record of one field. -/
def Production.toJson (p : Production) : Value :=
  .object [(symbolsKey, .array (p.symbols.map Symbol.toJson))]

/-- Reads a production. -/
def Production.reader : Reader Production :=
  record [⟨symbolsKey, Option.isSome, fun _ => some <$> Json.Reader.list Symbol.reader⟩] none
    (Option.map Production.mk)

/-- The key of a rule's productions. -/
def productionsKey : Text := "productions".toList

/-- A rule is a record of one field. -/
def Rule.toJson (r : Rule) : Value :=
  .object [(productionsKey, .array (r.productions.map Production.toJson))]

/-- Reads a rule. -/
def Rule.reader : Reader Rule :=
  record [⟨productionsKey, Option.isSome, fun _ => some <$> Json.Reader.list Production.reader⟩] none
    (Option.map Rule.mk)

/-! ## 2. Configurations -/

namespace Config

/-- The key of the depth limit. -/
def maxDepthKey : Text := "max_recursion_depth".toList

/-- The key of the separator. -/
def separatorKey : Text := "separator".toList

/-- The key of the trimming. -/
def trimKey : Text := "trim_output".toList

/-- A configuration is a record of three fields. -/
def toJson (c : Config) : Value :=
  .object
    [(maxDepthKey, match c.maxDepth with
      | none => .null
      | some limit => .number limit.toNat),
     (separatorKey, .string c.separator),
     (trimKey, .bool c.trim)]

/-- A configuration of which not all fields need be known. -/
structure Draft where
  maxDepth : Option (Option UInt64) := none
  separator : Option Text := none
  trim : Option Bool := none

/-- The fields of a configuration. -/
def fields : List (RecordField Draft) :=
  [⟨maxDepthKey, (·.maxDepth.isSome), fun d => do
      return { d with maxDepth := some (← Json.Reader.number?) }⟩,
   ⟨separatorKey, (·.separator.isSome), fun d => do
      return { d with separator := some (← Json.Reader.string) }⟩,
   ⟨trimKey, (·.trim.isSome), fun d => do
      return { d with trim := some (← Json.Reader.bool) }⟩]

/-- The configuration that a draft makes; without a limit if none is given. -/
def Draft.finish (d : Draft) : Option Config := do
  return ⟨d.maxDepth.getD none, ← d.separator, ← d.trim⟩

/-- Reads a configuration. -/
def reader : Reader Config :=
  record fields {} Draft.finish

end Config

/-! ## 3. Grammars -/

namespace Grammar

/-- The key of the rules. -/
def rulesKey : Text := "rules".toList

/-- The key of the order of definition. -/
def orderKey : Text := "order".toList

/-- The key of the start symbol. -/
def startKey : Text := "start_symbol".toList

/-- The key of the configuration. -/
def configKey : Text := "config".toList

/-- A grammar is a record of four fields. -/
def toJson (g : Grammar) : Value :=
  .object
    [(rulesKey, .object (g.rules.entries.map fun e => (e.1, e.2.toJson))),
     (orderKey, .array (g.order.map .string)),
     (startKey, .string g.start),
     (configKey, g.config.toJson)]

/-- A grammar of which not all fields need be known. -/
structure Draft where
  rules : Option (Table Rule) := none
  order : Option (List Text) := none
  start : Option Text := none
  config : Option Config := none

/-- The table that entries make; of several for one name the last one counts. -/
def tableOf (entries : List (Text × Rule)) : Table Rule :=
  entries.foldl (fun t e => t.insert e.1 e.2) .empty

/-- The fields of a grammar. -/
def fields : List (RecordField Draft) :=
  [⟨rulesKey, (·.rules.isSome), fun d => do
      return { d with rules := some (tableOf (← Json.Reader.dictionary Rule.reader)) }⟩,
   ⟨orderKey, (·.order.isSome), fun d => do
      return { d with order := some (← Json.Reader.list Json.Reader.string) }⟩,
   ⟨startKey, (·.start.isSome), fun d => do
      return { d with start := some (← Json.Reader.string) }⟩,
   ⟨configKey, (·.config.isSome), fun d => do
      return { d with config := some (← Config.reader) }⟩]

/-- The grammar that a draft makes; with the usual configuration if none is given. -/
def Draft.finish (d : Draft) : Option Grammar := do
  return ⟨← d.rules, ← d.order, ← d.start, d.config.getD {}⟩

/-- Reads a grammar as it is written, with any order of definition. -/
def reader : Reader Grammar :=
  record fields {} Draft.finish

/-- The first occurrences of the names that have a rule, then the other names with a rule. -/
def repairedOrder (rules : Table Rule) (order : List Text) : List Text :=
  let known := (order.filter rules.contains).eraseDups
  known ++ rules.names.filter fun name => !known.contains name

/-- The grammar with its order of definition repaired. -/
def repaired (g : Grammar) : Grammar :=
  { g with order := repairedOrder g.rules g.order }

/-- The grammar that a JSON text holds. -/
def ofJson (t : Text) : Except Fault Grammar :=
  (reader.readAll t).map repaired

/-- The JSON text of a grammar. -/
def jsonText (g : Grammar) : Text :=
  g.toJson.indented

end Grammar

end Sentences
