import Mathlib.Algebra.BigOperators.Group.List.Basic
import Mathlib.Computability.Language
import Sentences.Proofs.Derivation

/-!
# The language of symbols

The texts that derivation trees yield obey the equations that one reads off a grammar: symbols side
by side are a product of languages, the alternatives of a rule a sum.

* `language_nil`, `language_cons`, `language_terminal`, `language_rule`: the equations;
* `Expands.joined_mem_language`: what symbols expand to is in their language;
* `exists_script_of_mem`: whatever is in it, and has a tree for which there is room, is made by some
  script.
-/

namespace Sentences.Grammar

/-- The leaves side by side, the separator after each. -/
def joined (g : Grammar) (leaves : List Text) : Text :=
  leaves.flatMap (· ++ g.config.separator)

/-- The texts that trees for a list of symbols yield. -/
def language (g : Grammar) (ss : List Symbol) : Language Char :=
  {t : Text | ∃ f : g.Forest ss, g.joined f.leaves = t}

variable {g : Grammar} {t : Text}

/-! ## 1. Equations -/

theorem mem_language_iff {ss : List Symbol} :
    t ∈ g.language ss ↔ ∃ f : g.Forest ss, g.joined f.leaves = t :=
  Iff.rfl

theorem joined_singleton (g : Grammar) (text : Text) :
    g.joined [text] = text ++ g.config.separator :=
  List.append_nil _

theorem joined_append (g : Grammar) (xs ys : List Text) :
    g.joined (xs ++ ys) = g.joined xs ++ g.joined ys :=
  List.flatMap_append

theorem language_nil (g : Grammar) : g.language [] = 1 := by
  refine Language.ext fun t => ?_
  rw [mem_language_iff, Language.mem_one]
  constructor
  · intro ⟨f, hf⟩
    cases f
    exact hf.symm
  · intro h
    exact ⟨.nil, h.symm⟩

/-- Trees side by side yield texts side by side. -/
theorem language_cons (g : Grammar) (s : Symbol) (rest : List Symbol) :
    g.language (s :: rest) = g.language [s] * g.language rest := by
  refine Language.ext fun t => ?_
  rw [mem_language_iff, Language.mem_mul]
  constructor
  · intro ⟨f, hf⟩
    cases f with
    | cons first others =>
      refine ⟨_, ⟨.cons first .nil, rfl⟩, _, ⟨others, rfl⟩, ?_⟩
      rw [← joined_append, ← hf]
      simp [Forest.leaves]
  · intro ⟨_, ⟨f, rfl⟩, _, ⟨others, rfl⟩, happend⟩
    obtain ⟨first, hfirst, -⟩ := f.exists_tree
    refine ⟨.cons first others, ?_⟩
    rw [← happend, ← hfirst, ← joined_append]
    rfl

theorem language_terminal (g : Grammar) (text : Text) :
    g.language [.terminal text] = ({text ++ g.config.separator} : Set Text) := by
  refine Language.ext fun t => ?_
  constructor
  · intro ⟨f, hf⟩
    obtain ⟨tree, htree, -⟩ := f.exists_tree
    cases tree
    rw [← hf, ← htree]
    exact joined_singleton g text
  · intro h
    rw [Set.mem_singleton_iff.1 h]
    exact ⟨.cons (.terminal text) .nil, joined_singleton g text⟩

/-- The language of a list is the sum of those of its elements. -/
theorem mem_sum_iff {α : Type} (f : α → Language Char) (as : List α) :
    t ∈ (as.map f).sum ↔ ∃ a ∈ as, t ∈ f a := by
  induction as with
  | nil => simp [Language.notMem_zero]
  | cons a rest ih =>
    rw [List.map_cons, List.sum_cons, Language.mem_add, ih]
    simp

/-- A name with a rule has the texts of its alternatives. -/
theorem language_rule {name : Text} {rule : Rule} (h : g.rules.get? name = some rule) :
    g.language [.nonterminal name] = (rule.productions.map fun p => g.language p.symbols).sum := by
  refine Language.ext fun t => ?_
  rw [mem_language_iff, mem_sum_iff]
  constructor
  · intro ⟨f, hf⟩
    obtain ⟨tree, htree, -⟩ := f.exists_tree
    cases tree with
    | undefined name hname =>
      rw [hname] at h
      cases h
    | @node name other p hname hp children =>
      rw [hname] at h
      cases h
      exact ⟨p, hp, children, by rw [← hf, ← htree]; rfl⟩
  · intro ⟨p, hp, children, ht⟩
    refine ⟨.cons (.node h hp children) .nil, ?_⟩
    rw [← ht]
    exact congrArg g.joined (List.append_nil _)

/-! ## 2. Expansions -/

/-- **Symbols expand to texts of their language.** -/
theorem Expands.joined_mem_language {draws : Draws} {depth pos stop : Nat} {ss : List Symbol}
    {leaves : List Text} (h : g.Expands draws depth ss pos (.ok leaves) stop) :
    g.joined leaves ∈ g.language ss := by
  obtain ⟨f, hf, -⟩ := h.exists_forest leaves rfl
  exact ⟨f, by rw [hf]⟩

/-- **Every text of the language is made by a script**, where no tree nests too deep. -/
theorem exists_script_of_mem (hg : g.Pickable) {depth : Nat} {ss : List Symbol}
    (hroom : ∀ f : g.Forest ss, g.Admits depth f.nesting) (ht : t ∈ g.language ss) :
    ∃ script leaves stop, g.joined leaves = t ∧
      g.Expands (.ofList script) depth ss 0 (.ok leaves) stop := by
  obtain ⟨f, hf⟩ := ht
  obtain ⟨script, hscript⟩ := f.exists_script hg depth (hroom f)
  exact ⟨script, f.leaves, _, hf, hscript _ 0 (Draws.ofList_follows script)⟩

end Sentences.Grammar
