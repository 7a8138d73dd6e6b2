import Sentences.Generation

/-!
# Sentences written in place

The same sentences by a program that keeps one text: each leaf goes to its end as soon as the
expansion comes to it, with the separator behind it, and nothing is put together afterwards. The
text of a failed expansion is lost.
-/

namespace Sentences.Grammar

/-! ## 1. Symbols -/

/-- Writes the leaves of a symbol at a depth to the end of a text. -/
def writeSymbol (g : Grammar) (draws : Draws) (fuel depth : Nat) (s : Symbol) (out : Text) :
    Walk GenerationFault Text :=
  match s with
  | .terminal text => .done (out ++ text ++ g.config.separator)
  | .nonterminal name =>
    match g.rules.get? name with
    | none => .done (out ++ name.inBrackets ++ g.config.separator)
    | some rule =>
      match g.config.limitAt? depth with
      | some limit => .fail (.tooDeep name limit)
      | none =>
        if h : 0 < rule.productions.length then
          match fuel with
          | 0 => .spent
          | fuel + 1 =>
            (draws.choose rule.productions.length h (fuel + 1)).andThen fun i =>
              Walk.fold (writeSymbol g draws fuel (depth + 1)) (rule.productions.get i).symbols out
        else .fail (.noAlternatives name)

section Cases

variable {g : Grammar} {draws : Draws} {fuel depth : Nat} {name : Text} {rule : Rule}

@[simp] theorem writeSymbol_terminal (g : Grammar) (draws : Draws) (fuel depth : Nat)
    (text out : Text) :
    g.writeSymbol draws fuel depth (.terminal text) out =
      .done (out ++ text ++ g.config.separator) := by
  cases fuel <;> rfl

theorem writeSymbol_undefined (h : g.rules.get? name = none) (out : Text) :
    g.writeSymbol draws fuel depth (.nonterminal name) out =
      .done (out ++ name.inBrackets ++ g.config.separator) := by
  cases fuel <;> simp [writeSymbol, h]

theorem writeSymbol_tooDeep {limit : UInt64} (h : g.rules.get? name = some rule)
    (hl : g.config.limitAt? depth = some limit) (out : Text) :
    g.writeSymbol draws fuel depth (.nonterminal name) out = .fail (.tooDeep name limit) := by
  cases fuel <;> simp [writeSymbol, h, hl]

theorem writeSymbol_noAlternatives (h : g.rules.get? name = some rule)
    (hl : g.config.limitAt? depth = none) (hr : rule.productions = []) (out : Text) :
    g.writeSymbol draws fuel depth (.nonterminal name) out = .fail (.noAlternatives name) := by
  cases fuel <;> simp [writeSymbol, h, hl, hr]

theorem writeSymbol_zero (h : g.rules.get? name = some rule)
    (hl : g.config.limitAt? depth = none) (hr : 0 < rule.productions.length) (out : Text) :
    g.writeSymbol draws 0 depth (.nonterminal name) out = .spent := by
  simp [writeSymbol, h, hl, hr]

theorem writeSymbol_succ (h : g.rules.get? name = some rule)
    (hl : g.config.limitAt? depth = none) (hr : 0 < rule.productions.length) (out : Text) :
    g.writeSymbol draws (fuel + 1) depth (.nonterminal name) out =
      (draws.choose rule.productions.length hr (fuel + 1)).andThen fun i =>
        Walk.fold (g.writeSymbol draws fuel (depth + 1)) (rule.productions.get i).symbols out := by
  simp [writeSymbol, h, hl, hr]

end Cases

/-! ## 2. Sentences -/

/-- Writes one sentence from a start, and trims it if so configured. -/
def writeSentence (g : Grammar) (draws : Draws) (fuel : Nat) (start : Text) :
    Walk GenerationFault Text :=
  let written :=
    if g.has start then g.writeSymbol draws fuel 0 (.nonterminal start.bareName) []
    else .done (start.trim ++ g.config.separator)
  written.map fun out => if g.config.trim then out.trim else out

end Sentences.Grammar
