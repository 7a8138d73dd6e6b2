import Sentences.Grammar.Edit
import Sentences.Grammar.Json

/-!
# Where grammars come from

Every grammar begins in one of a few ways and is then edited. A grammar is reachable when some
beginning and some edits lead to it; what holds of all reachable grammars is shown by following the
edits.
-/

namespace Sentences

/-- A way to begin a grammar. -/
inductive Origin where
  | empty
  | configured (config : Config)
  | starter (words : Vocabulary)
  | rules (assignments : List Assignment)
  | file (contents : FileContents)
  | json (text : Text)

/-- The grammar at the beginning, or why there is none. -/
def Origin.grammar : Origin → Except Failure Grammar
  | .empty => .ok .empty
  | .configured config => .ok (Grammar.empty.setConfig config)
  | .starter words => .ok (.starter words)
  | .rules assignments => .ok (.ofRules assignments)
  | .file contents => Grammar.ofFile contents
  | .json text => (Grammar.ofJson text).mapError .json

/-- Some beginning and some edits lead to the grammar. -/
def Grammar.Reachable (g : Grammar) : Prop :=
  ∃ origin : Origin, ∃ edits : List Edit, ∃ first,
    origin.grammar = .ok first ∧ g = first.edited edits

/-- Some beginning other than a JSON text and some edits lead to the grammar. -/
def Grammar.ReachableWithoutJson (g : Grammar) : Prop :=
  ∃ origin : Origin, ∃ edits : List Edit, ∃ first, (∀ text, origin ≠ .json text) ∧
    origin.grammar = .ok first ∧ g = first.edited edits

end Sentences
