import Sentences.Proofs.DepthLimit
import Sentences.Proofs.References
import Sentences.Proofs.Trace

/-!
# What a failure says

A failure comes up unchanged from the call that failed, and a call at some depth has as many
references above it, one after another from the start on. So the failure tells the truth about a
name that the start leads to, and its place in the references shows how deep it was.

* `Traced.exists_chain`: the references above each call;
* `Returns.exists_chain`: and above the call that a failure came from;
* `failures_are_truthful`: so an empty rule that is reported is one that the start leads to in fewer
  steps than the limit, and a limit is reported where exactly as many references are above.
-/

namespace Sentences.Grammar

variable {g : Grammar} {draws : Draws} {start : Text} {pos stop : Nat}

/-! ## 1. The references above a call -/

/-- The symbol of a call at a depth, if it is a name, has as many references above it. -/
def Placed (g : Grammar) (root : Text) (depth : Nat) (s : Symbol) : Prop :=
  ∀ name, s = .nonterminal name → ∃ via, via.length = depth ∧ g.Chain root via name

theorem handsOn_placed (g : Grammar) (root : Text) : g.HandsOn (g.Placed root) := by
  intro depth name rule p s hplaced hname _ hp hs other hother
  obtain ⟨via, hlength, hchain⟩ := hplaced name rfl
  have hrefers := mem_references hname hp (hother ▸ hs)
  refine ⟨via ++ [other], ?_, hchain.snoc hrefers⟩
  rw [List.length_append, List.length_singleton, hlength]

/-- **Every call of a name that an expansion of a name makes has as many references above it as the
    depth says.** -/
theorem Traced.exists_chain {root name : Text} {depth : Nat}
    {r : Except GenerationFault (List Text)} {log : List Event}
    (h : g.Traced draws 0 [.nonterminal root] pos r stop log)
    (hcall : .call depth (.nonterminal name) ∈ log) :
    ∃ via, via.length = depth ∧ g.Chain root via name := by
  have hroot : g.Placed root 0 (.nonterminal root) := by
    intro name hname
    cases hname
    exact ⟨[], rfl, .nil g root⟩
  exact h.forall_fits (handsOn_placed g root) (List.forall_mem_singleton.2 hroot) _ hcall name rfl

/-- **A failure is that of a name at the end of a chain of references from the start**, no longer
    than the limit. -/
theorem Returns.exists_chain {e : GenerationFault}
    (h : g.Returns draws start pos (.error e) stop) :
    ∃ via name, g.FailsAt via.length name e ∧ g.Chain start.bareName via name ∧
      ∀ limit, g.config.maxDepth = some limit → via.length ≤ limit.toNat := by
  obtain ⟨log, hrun⟩ := returns_iff_exists_runs.1 h
  generalize hr : Except.error e = r at hrun
  cases hrun with
  | written => cases hr
  | expanded hs htraced =>
    obtain ⟨depth, name, hcall, hfails⟩ := htraced.exists_failsAt (map_eq_error_iff.1 hr.symm)
    obtain ⟨via, rfl, hchain⟩ := htraced.exists_chain hcall
    refine ⟨via, name, hfails, hchain, fun limit hlimit => ?_⟩
    exact htraced.forall_fits (handsOn_le hlimit)
      (List.forall_mem_singleton.2 (Nat.zero_le limit.toNat)) _ hcall

/-! ## 2. What is reported -/

theorem Returns.chain_of_noAlternatives {name : Text}
    (h : g.Returns draws start pos (.error (.noAlternatives name)) stop) :
    (∃ rule, g.rules.get? name = some rule ∧ rule.productions = []) ∧
      ∃ via, g.Chain start.bareName via name ∧
        ∀ limit, g.config.maxDepth = some limit → via.length < limit.toNat := by
  obtain ⟨via, _, hfails, hchain, -⟩ := h.exists_chain
  cases hfails with
  | noAlternatives hname hnone hrule =>
    exact ⟨⟨_, hname, hrule⟩, via, hchain, limitAt?_eq_none_iff.1 hnone⟩

theorem Returns.chain_of_tooDeep {name : Text} {limit : UInt64}
    (h : g.Returns draws start pos (.error (.tooDeep name limit)) stop) :
    g.config.maxDepth = some limit ∧ g.rules.contains name = true ∧
      ∃ via, g.Chain start.bareName via name ∧ via.length = limit.toNat ∧
        ∀ other ∈ start.bareName :: via, g.rules.contains other = true := by
  obtain ⟨via, _, hfails, hchain, hle⟩ := h.exists_chain
  cases hfails with
  | tooDeep hname hreached =>
    obtain ⟨hlimit, hge⟩ := limitAt?_eq_some_iff.1 hreached
    have hcontains : g.rules.contains name = true := Option.isSome_of_eq_some hname
    exact ⟨hlimit, hcontains, via, hchain, Nat.le_antisymm (hle limit hlimit) hge,
      hchain.contains hcontains⟩

/-- **What a failure says is true.** If it says that a name has no alternatives, the rule of that
    name has none, and fewer references than the limit lead to it from the start. If it says that
    a name is nested as deep as a limit, that limit is the configured one, and exactly as many
    references lead to the name, through names that all have a rule. So a start from which every
    rule that it leads to has an alternative never fails for want of one, and without a limit none
    is ever reached. -/
theorem failures_are_truthful (g : Grammar) (draws : Draws) (start : Text) (pos : Nat) :
    (∀ name stop, g.Returns draws start pos (.error (.noAlternatives name)) stop →
      (∃ rule, g.rules.get? name = some rule ∧ rule.productions = []) ∧
        ∃ via, g.Chain start.bareName via name ∧
          ∀ limit, g.config.maxDepth = some limit → via.length < limit.toNat) ∧
    (∀ name limit stop, g.Returns draws start pos (.error (.tooDeep name limit)) stop →
      g.config.maxDepth = some limit ∧ g.rules.contains name = true ∧
        ∃ via, g.Chain start.bareName via name ∧ via.length = limit.toNat ∧
          ∀ other ∈ start.bareName :: via, g.rules.contains other = true) ∧
    ((∀ name rule, g.Reaches start.bareName name → g.rules.get? name = some rule →
        rule.productions ≠ []) →
      ∀ name stop, ¬ g.Returns draws start pos (.error (.noAlternatives name)) stop) ∧
    (g.config.maxDepth = none →
      ∀ name limit stop, ¬ g.Returns draws start pos (.error (.tooDeep name limit)) stop) := by
  refine ⟨fun _ _ h => h.chain_of_noAlternatives, fun _ _ _ h => h.chain_of_tooDeep,
    fun hrules name stop h => ?_, fun hnone name limit stop h => ?_⟩
  · obtain ⟨⟨rule, hname, hrule⟩, via, hchain, -⟩ := h.chain_of_noAlternatives
    exact hrules name rule hchain.reaches hname hrule
  · obtain ⟨hlimit, -⟩ := h.chain_of_tooDeep
    rw [hnone] at hlimit
    cases hlimit

/-- Two references lead to the empty rule: fewer than a limit of three, and as many as a limit of
    two. A start that leads to no empty rule comes to no such failure. -/
theorem failures_are_truthful_bottomless :
    (bottomless.withLimit (some 3)).Returns bottomlessDraws "s".toList 0
      (.error (.noAlternatives "e".toList)) 2 ∧
    (∃ via, (bottomless.withLimit (some 3)).Chain (Text.bareName "s".toList) via "e".toList ∧
      via.length < 3) ∧
    (bottomless.withLimit (some 2)).Returns bottomlessDraws "s".toList 0
      (.error (.tooDeep "e".toList 2)) 2 ∧
    (∃ via, (bottomless.withLimit (some 2)).Chain (Text.bareName "s".toList) via "e".toList ∧
      via.length = 2) ∧
    (∀ name rule, secluded.Reaches (Text.bareName "<s>".toList) name →
      secluded.rules.get? name = some rule → rule.productions ≠ []) ∧
    secluded.config.maxDepth = none ∧
    ∀ name limit stop,
      ¬ secluded.Returns bottomlessDraws "<s>".toList 0 (.error (.noAlternatives name)) stop ∧
      ¬ secluded.Returns bottomlessDraws "<s>".toList 0 (.error (.tooDeep name limit)) stop := by
  have hempty : (bottomless.withLimit (some 3)).Returns bottomlessDraws "s".toList 0
      (.error (.noAlternatives "e".toList)) 2 := ⟨4, rfl⟩
  have hdeep : (bottomless.withLimit (some 2)).Returns bottomlessDraws "s".toList 0
      (.error (.tooDeep "e".toList 2)) 2 := ⟨4, rfl⟩
  have hrules : ∀ name rule, secluded.Reaches (Text.bareName "<s>".toList) name →
      secluded.rules.get? name = some rule → rule.productions ≠ [] := by
    have hall : ∀ e ∈ secluded.rules.entries, e.2.productions ≠ [] := by decide +kernel
    intro name rule _ hname
    exact hall _ ((Table.get?_eq_some_iff _ name rule).1 hname)
  obtain ⟨hthree, -⟩ :=
    failures_are_truthful (bottomless.withLimit (some 3)) bottomlessDraws "s".toList 0
  obtain ⟨-, htwo, -⟩ :=
    failures_are_truthful (bottomless.withLimit (some 2)) bottomlessDraws "s".toList 0
  obtain ⟨-, -, hsecluded, hlimitless⟩ :=
    failures_are_truthful secluded bottomlessDraws "<s>".toList 0
  obtain ⟨-, via, hvia, hfewer⟩ := hthree _ _ hempty
  obtain ⟨-, -, through, hthrough, hexactly, -⟩ := htwo _ _ _ hdeep
  exact ⟨hempty, ⟨via, hvia, hfewer 3 rfl⟩, hdeep, ⟨through, hthrough, hexactly⟩, hrules, rfl,
    fun name limit stop => ⟨hsecluded hrules name stop, hlimitless rfl name limit stop⟩⟩

end Sentences.Grammar
