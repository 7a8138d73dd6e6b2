import Mathlib.Algebra.Group.Nat.Defs
import Sentences.Proofs.DepthLimit
import Sentences.Proofs.References
import Sentences.Proofs.RuleText

/-!
# Starting at a nonterminal and referring to it

A name whose only alternative is a reference is an alias of what it refers to. It takes one draw,
for the pick among one, and one level of depth.

* `Rule.ofText_inBrackets`: a name in its brackets is the rule with that reference;
* `counts_one_iff`: the lower half of all draws do a pick among one;
* `limitAt?_raised`: one level deeper, under a limit raised by one, the same is let through;
* `generate_alias`: an alias generates what the name that it refers to does.
-/

namespace Sentences

/-! ## 1. References by themselves -/

/-- **A name in its brackets is the rule with that reference**, if no mark in the name ends the
    reference or the alternative. -/
theorem Rule.ofText_inBrackets {name : Text} (hcomma : alternativeMark ∉ name)
    (hclose : closeMark ∉ name) : ofText name.inBrackets = ⟨[⟨[.nonterminal name]⟩]⟩ := by
  have htext : Production.toText ⟨[.nonterminal name]⟩ = name.inBrackets := List.flatMap_singleton ..
  have hproduction : (⟨[.nonterminal name]⟩ : Production).Faithful := by
    refine ⟨fun s hs hm => ?_, (Symbol.Scanned.reference hclose .nil).normal, ?_⟩
    · rw [List.mem_singleton.1 hs] at hm
      rcases List.mem_cons.1 hm with hm | hm
      · revert hm
        decide
      · rcases List.mem_append.1 hm with hm | hm
        · exact hcomma hm
        · revert hm
          decide
    · rw [htext]
      exact name.tight_inBrackets
  have hrule : (⟨[⟨[.nonterminal name]⟩]⟩ : Rule).Faithful := by
    refine ⟨fun he => ?_, fun p hp => ?_⟩
    · cases he
    · rw [List.mem_singleton.1 hp]
      exact hproduction
  have hback := hrule.ofText_toText
  unfold toText at hback
  rwa [List.map_singleton, List.intercalate_singleton, htext] at hback

namespace Draws

/-- A draw in front of a source. -/
def cons (v : UInt64) (draws : Draws) : Draws
  | 0 => v
  | k + 1 => draws k

/-- The draws that do a pick among one are those below the half. -/
theorem counts_one_iff (v : UInt64) : counts 1 v = true ↔ v.toNat < 2 ^ 63 := by
  have hzone : zone 1 = 2 ^ 63 - 1 := by decide
  have hv := v.toNat_lt_size
  unfold counts
  rw [decide_eq_true_eq, Nat.mul_one, Nat.mod_eq_of_lt hv, hzone]
  omega

theorem choose_cons {ε : Type} {v : UInt64} (hv : v.toNat < 2 ^ 63) (draws : Draws) (fuel : Nat) :
    (draws.cons v).choose (ε := ε) 1 Nat.one_pos (fuel + 1) 0 = some (.ok 0, 1) := by
  unfold choose pick
  show Option.map _ (if counts 1 v = true then _ else _) = _
  rw [if_pos ((counts_one_iff v).2 hv)]
  exact congrArg (fun i => some (Except.ok i, 1)) (Subsingleton.elim _ _)

end Draws

namespace Grammar

variable {g : Grammar} {v : UInt64} {x w : Text} {limit : Option UInt64}

/-- A start in its brackets comes to the leaves of the reference. -/
theorem leaves_inBrackets (g : Grammar) (draws : Draws) (fuel : Nat) (x : Text) :
    g.leaves draws fuel x.inBrackets = g.expand draws fuel 0 (.nonterminal x) := by
  have hhas : g.has x.inBrackets = g.rules.contains x := by
    unfold has
    rw [Text.bareName_inBrackets]
  unfold leaves
  rw [hhas, Text.bareName_inBrackets]
  split
  · rfl
  · rename_i hx
    have hnone : g.rules.get? x = none := Option.not_isSome_iff_eq_none.1 hx
    rw [expand_undefined hnone, Text.trim_of_tight x.tight_inBrackets]

/-! ## 2. One level deeper -/

theorem toNat_add_one {l : UInt64} (h : l.toNat + 1 < UInt64.size) :
    (l + 1).toNat = l.toNat + 1 := by
  rw [UInt64.toNat_add]
  exact Nat.mod_eq_of_lt h

section Raised

variable (hlimit : ∀ l, limit = some l → l.toNat + 1 < UInt64.size)

include hlimit

/-- One level deeper with the limit raised by one, the same depths are let through. -/
theorem limitAt?_raised (g : Grammar) (depth : Nat) :
    (g.withLimit (limit.map (· + 1))).config.limitAt? (depth + 1) =
      ((g.withLimit limit).config.limitAt? depth).map (· + 1) := by
  show (limit.map (· + 1)).filter (fun l => decide (l.toNat ≤ depth + 1)) =
    (limit.filter fun l => decide (l.toNat ≤ depth)).map (· + 1)
  cases limit with
  | none => rfl
  | some l =>
    rw [Option.map_some, Option.filter_some, Option.filter_some, toNat_add_one (hlimit l rfl)]
    by_cases hle : l.toNat ≤ depth
    · simp [hle]
    · simp [hle]

/-- A limit raised by one lets the outermost level through. -/
theorem limitAt?_raised_zero (g : Grammar) :
    (g.withLimit (limit.map (· + 1))).config.limitAt? 0 = none := by
  refine limitAt?_eq_none_iff.2 fun l hl => ?_
  obtain ⟨less, hless, rfl⟩ := Option.map_eq_some_iff.1 hl
  rw [toNat_add_one (hlimit less hless)]
  exact Nat.succ_pos _

end Raised

/-! ## 3. Aliases -/

section Alias

/-- A name that nothing refers to on the way from another one is not led to. -/
theorem not_reaches_of_unused (hne : w ≠ x) (hunused : ∀ name, g.Reaches x name →
    w ∉ g.references name) : ¬ g.Reaches x w := by
  intro hr
  rcases Relation.ReflTransGen.cases_tail hr with he | ⟨name, hname, hw⟩
  · exact hne he
  · exact hunused name hname hw

/-- A single reference takes one draw, which picks it, and goes one level deeper. -/
theorem leaves_reference (hw : w.bareName = w)
    (hname : g.rules.get? w = some ⟨[⟨[.nonterminal x]⟩]⟩) (hlimit : g.config.limitAt? 0 = none)
    (hv : v.toNat < 2 ^ 63) (draws : Draws) (fuel : Nat) :
    g.leaves (draws.cons v) (fuel + 1) w 0 =
      g.expand (draws.cons v) fuel 1 (.nonterminal x) 1 := by
  have hhas : g.has w = true := by
    unfold has
    rw [hw]
    exact Option.isSome_of_eq_some hname
  unfold leaves
  rw [hhas, if_pos rfl, hw, expand_succ hname hlimit Nat.one_pos]
  show ((draws.cons v).choose 1 Nat.one_pos (fuel + 1)).andThen _ 0 = _
  unfold Walk.andThen
  rw [Draws.choose_cons hv]
  exact congrFun (Walk.concat_singleton _ _) 1

/-- An alias generates what the name that it refers to does: one draw later, and with the limit
    raised by one. -/
theorem generate_alias_eq (hcomma : alternativeMark ∉ x) (hclose : closeMark ∉ x) (hbare : w.Bare)
    (hreaches : ¬ g.Reaches x w) (hlimit : ∀ l, limit = some l → l.toNat + 1 < UInt64.size)
    (hv : v.toNat < 2 ^ 63) (draws : Draws) (fuel : Nat) :
    ((g.setRule ⟨w, x.inBrackets⟩).withLimit (limit.map (· + 1))).generate (draws.cons v) (fuel + 1)
      w 0 = ((g.withLimit limit).generate draws fuel x.inBrackets 0).map
        (Walk.later 1 (GenerationFault.mapLimit (· + 1))) := by
  have hw : w.bareName = w := (Text.bareName_eq_self_iff w).2 hbare
  have hname : (g.setRule ⟨w, x.inBrackets⟩).rules.get? w = some ⟨[⟨[.nonterminal x]⟩]⟩ := by
    rw [get?_setRule, hw, if_pos rfl, Rule.ofText_inBrackets hcomma hclose]
  -- the alias is the only name with another rule, and is not led to
  have hrules : ∀ name, g.Reaches x name →
      (g.setRule ⟨w, x.inBrackets⟩).rules.get? name = g.rules.get? name := by
    intro name hr
    have hother : name ≠ w := fun he => hreaches (he ▸ hr)
    rw [get?_setRule, hw, if_neg hother]
  have hleaves := leaves_reference
    (g := (g.setRule ⟨w, x.inBrackets⟩).withLimit (limit.map (· + 1))) hw hname
    (limitAt?_raised_zero hlimit g) hv draws fuel
  have hmirrors := expand_mirrors (g := g.withLimit limit)
    (h := (g.setRule ⟨w, x.inBrackets⟩).withLimit (limit.map (· + 1)))
    (fun pos => (rfl : draws.cons v (pos + 1) = draws pos)) (limitAt?_raised hlimit g) hrules fuel 0
    x .refl
  unfold generate
  rw [leaves_inBrackets]
  refine Eq.trans ?_ (hmirrors.map g.config.sentence 0)
  unfold Walk.map Walk.andThen
  rw [hleaves]
  rfl

/-- **To start at a nonterminal is to refer to it.** A name that gets a single reference for its
    rule, and that nothing on the way from there refers to, generates exactly what a start in
    brackets does. It takes one draw more, the one that picks among one, and one level more, so with
    the limit raised by one it comes to the same sentence or the same failure, except that the
    failure names the raised limit. The reference may have a rule, one without alternatives, or
    none. -/
theorem generate_alias (hcomma : alternativeMark ∉ x) (hclose : closeMark ∉ x) (hbare : w.Bare)
    (hne : w ≠ x) (hunused : ∀ name, g.Reaches x name → w ∉ g.references name)
    (hlimit : ∀ l, limit = some l → l.toNat + 1 < UInt64.size) (hv : v.toNat < 2 ^ 63)
    (draws : Draws) (r : Except GenerationFault Text) (stop : Nat) :
    ((g.setRule ⟨w, x.inBrackets⟩).withLimit (limit.map (· + 1))).Returns (draws.cons v) w 0 r
        stop ↔
      ∃ r' stop', (g.withLimit limit).Returns draws x.inBrackets 0 r' stop' ∧
        r = r'.mapError (GenerationFault.mapLimit (· + 1)) ∧ stop = stop' + 1 := by
  have heq := generate_alias_eq hcomma hclose hbare (not_reaches_of_unused hne hunused) hlimit hv
    draws
  constructor
  · intro h
    obtain ⟨fuel, hfuel⟩ := h
    -- one more fuel leaves the result as it is, and is what the alias takes
    have hmore := generate_extends _ _ _ fuel 1 _ _ hfuel
    obtain ⟨⟨r', stop'⟩, hr, he⟩ := Option.map_eq_some_iff.1 ((heq fuel).symm.trans hmore)
    cases he
    exact ⟨r', stop', ⟨fuel, hr⟩, rfl, rfl⟩
  · intro h
    obtain ⟨r', stop', ⟨fuel, hfuel⟩, rfl, rfl⟩ := h
    refine ⟨fuel + 1, (heq fuel).trans ?_⟩
    rw [hfuel]
    rfl

/-- Two levels are too few for the name without alternatives, and so are three for the alias. -/
theorem generate_alias_bottomless :
    Text.Bare "t".toList ∧ "t".toList ≠ "s".toList ∧
    (∀ name, bottomless.Reaches "s".toList name → "t".toList ∉ bottomless.references name) ∧
    (bottomless.withLimit (some 2)).Returns bottomlessDraws (Text.inBrackets "s".toList) 0
      (.error (.tooDeep "e".toList 2)) 2 ∧
    ((bottomless.setRule ⟨"t".toList, Text.inBrackets "s".toList⟩).withLimit (some 3)).Returns
      (bottomlessDraws.cons 5) "t".toList 0 (.error (.tooDeep "e".toList 3)) 3 := by
  have hbare : Text.Bare "t".toList := (Text.bareName_eq_self_iff _).1 (by decide +kernel)
  have hne : "t".toList ≠ "s".toList := by decide
  have hclosed : ∀ n ∈ ["s".toList, "e".toList], ∀ other ∈ bottomless.references n,
      other ∈ ["s".toList, "e".toList] := by
    decide +kernel
  have hnone : ∀ n ∈ ["s".toList, "e".toList], "t".toList ∉ bottomless.references n := by
    decide +kernel
  have hunused : ∀ name, bottomless.Reaches "s".toList name →
      "t".toList ∉ bottomless.references name := by
    intro name hr
    exact hnone name (hr.mem_of_closed List.mem_cons_self hclosed)
  have hlimit : ∀ l, some (2 : UInt64) = some l → l.toNat + 1 < UInt64.size := by
    intro l hl
    cases hl
    decide
  have htwo : (bottomless.withLimit (some 2)).Returns bottomlessDraws (Text.inBrackets "s".toList) 0
      (.error (.tooDeep "e".toList 2)) 2 := ⟨4, rfl⟩
  refine ⟨hbare, hne, hunused, htwo, ?_⟩
  exact (generate_alias (by decide) (by decide) hbare hne hunused hlimit (by decide) bottomlessDraws
    _ _).2 ⟨_, _, htwo, rfl, rfl⟩

end Alias

end Grammar

end Sentences
