import Sentences.Proofs.Expansion
import Sentences.Proofs.Handles
import Sentences.Proofs.References

/-!
# Starting from the stored start symbol

A start symbol is stored as the name that its spelling stands for. To generate from it takes that
name for a spelling again. For a bare name this makes no difference; any other name stands for
another one, or for none, and then the sentence is that name, written out.

* `generate_congr`: a sentence depends on the rules and the configuration only;
* `generate_eq_of_bareName`: and on the name that its start stands for;
* `generate_storedStart`: what the stored start comes to, in brackets, as a bare name and otherwise;
* `storedStart_lost`: a start that has a rule and, once it is stored, is written out.
-/

namespace Sentences.Grammar

variable {g h : Grammar}

/-! ## 1. What a sentence from a start depends on -/

/-- Neither the order of definition nor the start symbol makes a difference to a sentence. -/
theorem generate_congr (hrules : g.rules = h.rules) (hconfig : g.config = h.config) (draws : Draws)
    (fuel : Nat) (start : Text) : g.generate draws fuel start = h.generate draws fuel start :=
  generate_eq_of_agree hconfig (fun _ _ => by rw [hrules]) draws fuel

/-- **Spellings of one name that has a rule generate alike.** -/
theorem generate_eq_of_bareName {s t : Text} (hs : g.has s = true) (ht : t.bareName = s.bareName)
    (draws : Draws) (fuel : Nat) : g.generate draws fuel t = g.generate draws fuel s := by
  have hboth : g.has t = g.has s := by
    unfold has
    rw [ht]
  unfold generate leaves
  rw [hboth, ht, if_pos hs, if_pos hs]

/-! ## 2. The stored start -/

/-- **A stored start symbol generates what its spelling generates if it is written in brackets, and
    as it stands if it is bare.** As it stands it is taken for a spelling once more: whatever that
    comes to, or, if it has no rule, it is written out. -/
theorem generate_storedStart {s : Text} (hs : g.has s = true) :
    ((g.setStart s).has (g.setStart s).start.inBrackets = true ∧
      ∀ draws fuel, (g.setStart s).generate draws fuel (g.setStart s).start.inBrackets =
        g.generate draws fuel s) ∧
    (s.bareName.Bare → (g.setStart s).has (g.setStart s).start = true ∧
      ∀ draws fuel, (g.setStart s).generate draws fuel (g.setStart s).start =
        g.generate draws fuel s) ∧
    (∀ draws fuel, (g.setStart s).generate draws fuel (g.setStart s).start =
      g.generate draws fuel s.bareName) ∧
    (g.rules.contains s.bareName.bareName = false → ∀ draws fuel pos,
      (g.setStart s).generate draws fuel (g.setStart s).start pos =
        some (.ok (g.config.sentence [s.bareName.trim]), pos)) := by
  have hrules : (g.setStart s).rules = g.rules := rfl
  have hconfig : (g.setStart s).config = g.config := rfl
  have hsame := generate_congr hrules hconfig
  have hbrackets : s.bareName.inBrackets.bareName = s.bareName := Text.bareName_inBrackets _
  refine ⟨⟨?_, fun draws fuel => ?_⟩, fun hbare => ⟨?_, fun draws fuel => ?_⟩,
    fun draws fuel => hsame draws fuel _, fun hnone draws fuel pos => ?_⟩
  · show g.rules.contains s.bareName.inBrackets.bareName = true
    rw [hbrackets]
    exact hs
  · rw [hsame]
    exact generate_eq_of_bareName hs hbrackets draws fuel
  · show g.rules.contains s.bareName.bareName = true
    rw [(Text.bareName_eq_self_iff _).2 hbare]
    exact hs
  · rw [hsame]
    exact generate_eq_of_bareName hs ((Text.bareName_eq_self_iff _).2 hbare) draws fuel
  · rw [hsame]
    exact generate_of_not_has hnone draws fuel pos

theorem generate_storedStart_wrapped :
    wrapped.has "<<a>>".toList = true ∧ wrapped.has "<c>".toList = true ∧
    Text.Bare (Text.bareName "<c>".toList) ∧
    (∀ draws fuel, (wrapped.setStart "<<a>>".toList).generate draws fuel "<<a>>".toList =
      wrapped.generate draws fuel "<<a>>".toList) ∧
    (∀ draws fuel, (wrapped.setStart "<c>".toList).generate draws fuel "c".toList =
      wrapped.generate draws fuel "<c>".toList) ∧
    wrapped.rules.contains (Text.bareName (Text.bareName "<<a>>".toList)) = false ∧
    ∀ draws fuel pos, (wrapped.setStart "<<a>>".toList).generate draws fuel "<a>".toList pos =
      some (.ok "<a> ".toList, pos) := by
  have hnested : wrapped.has "<<a>>".toList = true := by decide +kernel
  have hplain : wrapped.has "<c>".toList = true := by decide +kernel
  have hbare : Text.Bare (Text.bareName "<c>".toList) :=
    (Text.bareName_eq_self_iff _).1 (by decide +kernel)
  have hnone : wrapped.rules.contains (Text.bareName (Text.bareName "<<a>>".toList)) = false := by
    decide +kernel
  have hstored : (wrapped.setStart "<<a>>".toList).start = "<a>".toList := by decide +kernel
  have hstored' : (wrapped.setStart "<c>".toList).start = "c".toList := by decide +kernel
  have hsentence : wrapped.config.sentence [Text.trim (Text.bareName "<<a>>".toList)] =
      "<a> ".toList := by decide +kernel
  obtain ⟨⟨-, hbrackets⟩, -, -, hliteral⟩ := generate_storedStart hnested
  obtain ⟨-, hagree⟩ := (generate_storedStart hplain).2.1 hbare
  rw [hstored] at hbrackets
  rw [hstored'] at hagree
  have hlost := hliteral hnone
  rw [hstored, hsentence] at hlost
  exact ⟨hnested, hplain, hbare, hbrackets, hagree, hnone, hlost⟩

/-- **A start with a rule is not found again once it is stored**: `<<a>>` comes to the sentence of
    its rule with one draw, and to its name without a draw after it is made the start symbol. -/
theorem storedStart_lost :
    wrapped.Reachable ∧ wrapped.has "<<a>>".toList = true ∧
    (wrapped.setStart "<<a>>".toList).has (wrapped.setStart "<<a>>".toList).start = false ∧
    wrapped.Returns (Draws.ofList []) "<<a>>".toList 0 (.ok "x ".toList) 1 ∧
    (wrapped.setStart "<<a>>".toList).Returns (Draws.ofList [])
      (wrapped.setStart "<<a>>".toList).start 0 (.ok "<a> ".toList) 0 := by
  refine ⟨reachable_wrapped, by decide +kernel, by decide +kernel, ⟨2, ?_⟩, ⟨2, ?_⟩⟩
  · decide +kernel
  · decide +kernel

end Sentences.Grammar
