import Sentences.Draws.Pick
import Sentences.Failure
import Sentences.Grammar.Basic

/-!
# Making sentences

A sentence is made in two steps: the start symbol is expanded into a list of leaves, then the
leaves are put side by side, the separator after each, and the text is trimmed if so configured.

Expanding a symbol:

* terminal text is a leaf, and so is a nonterminal without a rule, in its brackets;
* a nonterminal with a rule fails at the depth limit, then for want of alternatives; else one
  alternative is picked, and its symbols are expanded in order, one level deeper.

Fuel bounds both the levels and the draws of one pick; more of it never changes an answer.
-/

namespace Sentences

/-! ## 1. Expansion -/

/-- The limit, if a depth has reached it. -/
def Config.limitAt? (c : Config) (depth : Nat) : Option UInt64 :=
  c.maxDepth.filter fun limit => decide (limit.toNat ≤ depth)

/-- The sentence that leaves make. -/
def Config.sentence (c : Config) (leaves : List Text) : Text :=
  let text : Text := leaves.flatMap (· ++ c.separator)
  if c.trim then text.trim else text

namespace Grammar

/-- The leaves of a symbol at a depth. -/
def expand (g : Grammar) (draws : Draws) (fuel depth : Nat) (s : Symbol) :
    Walk GenerationFault (List Text) :=
  match s with
  | .terminal text => .done [text]
  | .nonterminal name =>
    match g.rules.get? name with
    | none => .done [name.inBrackets]
    | some rule =>
      match g.config.limitAt? depth with
      | some limit => .fail (.tooDeep name limit)
      | none =>
        if h : 0 < rule.productions.length then
          match fuel with
          | 0 => .spent
          | fuel + 1 =>
            (draws.choose rule.productions.length h (fuel + 1)).andThen fun i =>
              Walk.concat (expand g draws fuel (depth + 1)) rule.productions[i].symbols
        else .fail (.noAlternatives name)

/-! ## 2. The cases of an expansion -/

section Cases

variable {g : Grammar} {draws : Draws} {fuel depth : Nat} {name : Text} {rule : Rule}

@[simp] theorem expand_terminal (g : Grammar) (draws : Draws) (fuel depth : Nat) (text : Text) :
    g.expand draws fuel depth (.terminal text) = .done [text] := by
  cases fuel <;> rfl

theorem expand_undefined (h : g.rules.get? name = none) :
    g.expand draws fuel depth (.nonterminal name) = .done [name.inBrackets] := by
  cases fuel <;> simp [expand, h]

theorem expand_tooDeep {limit : UInt64} (h : g.rules.get? name = some rule)
    (hl : g.config.limitAt? depth = some limit) :
    g.expand draws fuel depth (.nonterminal name) = .fail (.tooDeep name limit) := by
  cases fuel <;> simp [expand, h, hl]

theorem expand_noAlternatives (h : g.rules.get? name = some rule)
    (hl : g.config.limitAt? depth = none) (hr : rule.productions = []) :
    g.expand draws fuel depth (.nonterminal name) = .fail (.noAlternatives name) := by
  cases fuel <;> simp [expand, h, hl, hr]

theorem expand_zero (h : g.rules.get? name = some rule)
    (hl : g.config.limitAt? depth = none) (hr : 0 < rule.productions.length) :
    g.expand draws 0 depth (.nonterminal name) = .spent := by
  simp [expand, h, hl, hr]

theorem expand_succ (h : g.rules.get? name = some rule)
    (hl : g.config.limitAt? depth = none) (hr : 0 < rule.productions.length) :
    g.expand draws (fuel + 1) depth (.nonterminal name) =
      (draws.choose rule.productions.length hr (fuel + 1)).andThen fun i =>
        Walk.concat (g.expand draws fuel (depth + 1)) (rule.productions.get i).symbols := by
  simp [expand, h, hl, hr]

end Cases

/-! ## 3. Sentences -/

/-- The leaves of a start, in any spelling; a start without a rule is a leaf, trimmed. -/
def leaves (g : Grammar) (draws : Draws) (fuel : Nat) (start : Text) :
    Walk GenerationFault (List Text) :=
  if g.has start then g.expand draws fuel 0 (.nonterminal start.bareName) else .done [start.trim]

/-- One sentence from a start. -/
def generate (g : Grammar) (draws : Draws) (fuel : Nat) (start : Text) :
    Walk GenerationFault Text :=
  (g.leaves draws fuel start).map g.config.sentence

/-- As many sentences as wanted, one after another. After a failure the next sentence goes on
with the draws from where the failure arose. -/
def generateAll (g : Grammar) (draws : Draws) (fuel : Nat) (start : Text) :
    Nat → Nat → Option (List (Except GenerationFault Text) × Nat)
  | 0, pos => some ([], pos)
  | count + 1, pos =>
    match g.generate draws fuel start pos with
    | none => none
    | some (result, next) =>
      (generateAll g draws fuel start count next).map fun r => (result :: r.1, r.2)

/-- As many sentences as wanted, up to the first failure, which ends the run. -/
def generateUntilFailure (g : Grammar) (draws : Draws) (fuel : Nat) (start : Text) :
    Nat → Nat → Option (List Text × Option GenerationFault)
  | 0, _ => some ([], none)
  | count + 1, pos =>
    match g.generate draws fuel start pos with
    | none => none
    | some (.error cause, _) => some ([], some cause)
    | some (.ok text, next) =>
      (generateUntilFailure g draws fuel start count next).map fun r => (text :: r.1, r.2)

end Grammar

end Sentences
