import Sentences.Grammar.Json

/-!
# What a JSON text says of a grammar

A document is a JSON text of a grammar taken at its word: the rules as the text lists them, a name
perhaps more than once, and any list of names for the order of definition. Its grammar has the rules
by name and the order repaired.

The repair is also given as a program that goes through the order with a record of the names that
it has seen, and through the names with a rule in whatever order it comes upon them.
-/

namespace Sentences

open Json (Reader Value)
open Json.Reader (RecordField record)

/-- A grammar as a JSON text gives it. -/
structure Document where
  /-- The rules in the order of the text; of several for one name the last one counts. -/
  rules : List (Text × Rule)
  order : List Text
  start : Text
  config : Config := {}
  deriving DecidableEq

namespace Document

/-! ## 1. Reading and writing -/

/-- A document of which not all fields need be known. -/
structure Draft where
  rules : Option (List (Text × Rule)) := none
  order : Option (List Text) := none
  start : Option Text := none
  config : Option Config := none

/-- The fields of a document. -/
def fields : List (RecordField Draft) :=
  [⟨Grammar.rulesKey, (·.rules.isSome), fun d => do
      return { d with rules := some (← Json.Reader.dictionary Rule.reader) }⟩,
   ⟨Grammar.orderKey, (·.order.isSome), fun d => do
      return { d with order := some (← Json.Reader.list Json.Reader.string) }⟩,
   ⟨Grammar.startKey, (·.start.isSome), fun d => do
      return { d with start := some (← Json.Reader.string) }⟩,
   ⟨Grammar.configKey, (·.config.isSome), fun d => do
      return { d with config := some (← Config.reader) }⟩]

/-- The document that a draft makes; with the usual configuration if none is given. -/
def Draft.finish (d : Draft) : Option Document := do
  return ⟨← d.rules, ← d.order, ← d.start, d.config.getD {}⟩

/-- Reads a document. -/
def reader : Reader Document :=
  record fields {} Draft.finish

/-- A document is a record of four fields. -/
def toJson (d : Document) : Value :=
  .object
    [(Grammar.rulesKey, .object (d.rules.map fun e => (e.1, e.2.toJson))),
     (Grammar.orderKey, .array (d.order.map .string)),
     (Grammar.startKey, .string d.start),
     (Grammar.configKey, d.config.toJson)]

/-! ## 2. Grammars -/

/-- The names for which the document has a rule, as it lists them. -/
def names (d : Document) : List Text :=
  d.rules.map (·.1)

/-- The grammar with the rules of the document and the order as it stands there. -/
def grammar (d : Document) : Grammar :=
  ⟨Grammar.tableOf d.rules, d.order, d.start, d.config⟩

/-- The grammar of the document. -/
def repaired (d : Document) : Grammar :=
  d.grammar.repaired

end Document

namespace Grammar

/-! ## 3. The repair in place -/

/-- Keeps the names that have a rule and have not been seen, each of which is seen from then on. -/
def keepUnseen (rules : Table Rule) : List Text → List Text → List Text
  | _, [] => []
  | seen, name :: rest =>
    if rules.contains name && !seen.contains name then name :: keepUnseen rules (name :: seen) rest
    else keepUnseen rules seen rest

/-- The order repaired in place: some names are dropped, and behind the others come the missing
ones, which are picked from the names with a rule, in whatever order these come, and sorted. -/
def repairInPlace (g : Grammar) (keys : List Text) : Grammar :=
  let kept := keepUnseen g.rules [] g.order
  let missing := keys.filter fun name => !kept.contains name
  { g with order := kept ++ missing.mergeSort fun a b => !decide (b < a) }

end Grammar

end Sentences
