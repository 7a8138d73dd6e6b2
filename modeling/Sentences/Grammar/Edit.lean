import Sentences.Failure
import Sentences.Grammar.Basic

/-!
# Edits

The changes that can be made to a grammar, as data. One edit can fail: a file that cannot be read,
or that is no rules file, changes nothing. A file is applied as a whole or not at all.
-/

namespace Sentences

/-- One change to a grammar. -/
inductive Edit where
  | setRule (assignment : Assignment)
  | setRules (assignments : List Assignment)
  | setWords (words : Vocabulary)
  | setStart (spelling : Text)
  | setConfig (config : Config)
  | applyFile (contents : FileContents)

namespace Grammar

/-- The grammar with the rules of a rules file written, and its start symbol if it chooses one. -/
def applyRulesFile (g : Grammar) (file : RulesFile) : Grammar :=
  match file.start with
  | none => g.setRules file.rules
  | some name => (g.setRules file.rules).setStart name

/-- The grammar after a file was applied to it. -/
def applyFile (g : Grammar) (contents : FileContents) : Except Failure Grammar :=
  (RulesFile.ofContents contents).map g.applyRulesFile

/-- The grammar, provided that its start symbol has a rule. -/
def checkStart (g : Grammar) : Except Failure Grammar :=
  if g.has g.start then .ok g else .error (.unknownStart g.start)

theorem checkStart_eq_ok_iff {g h : Grammar} :
    g.checkStart = .ok h ↔ g.has g.start = true ∧ h = g := by
  unfold checkStart
  split
  · next hhas => simp [hhas, eq_comm]
  · next hhas => simp [hhas]

theorem checkStart_eq_error_iff {g : Grammar} {cause : Failure} :
    g.checkStart = .error cause ↔ g.has g.start = false ∧ cause = .unknownStart g.start := by
  unfold checkStart
  split
  · next hhas => simp [hhas]
  · next hhas => simp [hhas, eq_comm]

/-- The grammar that a file alone makes; its start symbol must have a rule. -/
def ofFile (contents : FileContents) : Except Failure Grammar :=
  (empty.applyFile contents).bind checkStart

end Grammar

namespace Edit

/-- The grammar after the edit, or why the edit failed. -/
def attempt (g : Grammar) : Edit → Except Failure Grammar
  | .setRule a => .ok (g.setRule a)
  | .setRules as => .ok (g.setRules as)
  | .setWords words => .ok (g.setWords words)
  | .setStart spelling => .ok (g.setStart spelling)
  | .setConfig config => .ok (g.setConfig config)
  | .applyFile contents => g.applyFile contents

/-- The grammar after the edit; the same grammar if the edit failed. -/
def apply (g : Grammar) (e : Edit) : Grammar :=
  match attempt g e with
  | .ok h => h
  | .error _ => g

end Edit

/-- The grammar after a list of edits. -/
def Grammar.edited (g : Grammar) (edits : List Edit) : Grammar :=
  edits.foldl Edit.apply g

end Sentences
