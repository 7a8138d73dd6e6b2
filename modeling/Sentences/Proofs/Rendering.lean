import Sentences.Generation.InPlace
import Sentences.Proofs.Expansion
import Sentences.Proofs.Language
import Sentences.Proofs.References

/-!
# Separators and trimming

The separator is written all along an expansion, and still it has no part in what is picked: the
leaves come from the rules, the draws and the depth limit, and a sentence is these leaves, each with
the separator behind it, trimmed or not.

* `writeSymbol_eq`, `writeSentence_eq`: a sentence written in place is that of the leaves;
* `leaves_setConfig`: of a configuration only the depth limit has a part in the leaves;
* `Yields`: the leaves that a start comes to; `returns_iff_exists_yields`: and its sentence;
* `separator_and_trim_render_only`: so two configurations with one depth limit give the same leaves,
  or the same failure, with the same draws.
-/

namespace Sentences.Grammar

variable {g : Grammar} {draws : Draws}

/-! ## 1. Writing in place -/

/-- Symbols are written one behind the other, if each of them is written behind any text. -/
theorem fold_writeSymbol_eq {fuel depth : Nat}
    (h : ∀ s out, g.writeSymbol draws fuel depth s out =
      (g.expand draws fuel depth s).map fun leaves => out ++ g.joined leaves)
    (ss : List Symbol) (out : Text) :
    Walk.fold (g.writeSymbol draws fuel depth) ss out =
      (Walk.concat (g.expand draws fuel depth) ss).map fun leaves => out ++ g.joined leaves := by
  have happend (out : Text) (xs ys : List Text) :
      (out ++ g.joined xs) ++ g.joined ys = out ++ g.joined (xs ++ ys) := by
    rw [joined_append, List.append_assoc]
  exact Walk.fold_eq_map_concat (f := fun out leaves => out ++ g.joined leaves)
    (fun out => List.append_nil out) happend (fun s _ out => h s out) out

/-- **What is written in place is the leaves, each with the separator behind it**, by induction on
    the fuel. -/
theorem writeSymbol_eq (g : Grammar) (draws : Draws) : ∀ (fuel depth : Nat) (s : Symbol)
    (out : Text), g.writeSymbol draws fuel depth s out =
      (g.expand draws fuel depth s).map fun leaves => out ++ g.joined leaves
  | fuel, depth, .terminal text, out => by
    rw [expand_terminal, writeSymbol_terminal, List.append_assoc, ← joined_singleton]
    rfl
  | fuel, depth, .nonterminal name, out => by
    cases hname : g.rules.get? name with
    | none =>
      rw [expand_undefined hname, writeSymbol_undefined hname, List.append_assoc,
        ← joined_singleton]
      rfl
    | some rule =>
      cases hlimit : g.config.limitAt? depth with
      | some limit =>
        rw [expand_tooDeep hname hlimit, writeSymbol_tooDeep hname hlimit]
        rfl
      | none =>
        by_cases hrule : rule.productions = []
        · rw [expand_noAlternatives hname hlimit hrule,
            writeSymbol_noAlternatives hname hlimit hrule]
          rfl
        · have hpos : 0 < rule.productions.length := List.length_pos_iff.2 hrule
          cases fuel with
          | zero =>
            rw [expand_zero hname hlimit hpos, writeSymbol_zero hname hlimit hpos]
            rfl
          | succ fuel =>
            rw [expand_succ hname hlimit hpos, writeSymbol_succ hname hlimit hpos, Walk.andThen_map]
            exact congrArg _ (funext fun i =>
              fold_writeSymbol_eq (writeSymbol_eq g draws fuel (depth + 1)) _ out)

/-- **A sentence written in place is the sentence of the leaves.** -/
theorem writeSentence_eq (g : Grammar) (draws : Draws) (fuel : Nat) (start : Text) :
    g.writeSentence draws fuel start = g.generate draws fuel start := by
  unfold writeSentence generate leaves
  cases hs : g.has start with
  | false =>
    rw [if_neg Bool.false_ne_true, if_neg Bool.false_ne_true, ← joined_singleton]
    rfl
  | true =>
    rw [if_pos rfl, if_pos rfl, writeSymbol_eq, Walk.map_map]
    rfl

/-! ## 2. Leaves -/

variable {start : Text} {pos stop : Nat}

/-- Along the draws from a position, a start comes to leaves or to a failure, and the next draw is
    at `stop`. -/
def Yields (g : Grammar) (draws : Draws) (start : Text) (pos : Nat)
    (result : Except GenerationFault (List Text)) (stop : Nat) : Prop :=
  ∃ fuel, g.leaves draws fuel start pos = some (result, stop)

theorem Yields.unique {result result' : Except GenerationFault (List Text)} {stop' : Nat}
    (h : g.Yields draws start pos result stop) (h' : g.Yields draws start pos result' stop') :
    result = result' ∧ stop = stop' := by
  obtain ⟨fuel, hf⟩ := h
  obtain ⟨more, hm⟩ := h'
  exact Prod.mk.inj (Walk.Extends.unique (leaves_extends g draws start) hf hm)

theorem returns_iff_exists_yields {r : Except GenerationFault Text} :
    g.Returns draws start pos r stop ↔
      ∃ result, g.Yields draws start pos result stop ∧ r = result.map g.config.sentence := by
  simp only [Returns, Yields, generate, Walk.map_eq_some_iff]
  constructor
  · rintro ⟨fuel, result, h, hr⟩
    exact ⟨result, ⟨fuel, h⟩, hr⟩
  · rintro ⟨result, ⟨fuel, h⟩, hr⟩
    exact ⟨fuel, result, h, hr⟩

theorem yields_of_not_has (hs : g.has start = false) (draws : Draws) (pos : Nat) :
    g.Yields draws start pos (.ok [start.trim]) pos := by
  refine ⟨0, ?_⟩
  unfold leaves
  rw [hs, if_neg Bool.false_ne_true]
  rfl

/-- **Of a configuration only the depth limit has a part in the leaves.** -/
theorem leaves_setConfig {c d : Config} (h : c.maxDepth = d.maxDepth) (g : Grammar) (draws : Draws)
    (fuel : Nat) (start : Text) :
    (g.setConfig c).leaves draws fuel start = (g.setConfig d).leaves draws fuel start := by
  have hexpand := expand_eq_of_agree (h := g.setConfig c) (g := g.setConfig d) h (fun _ _ => rfl)
    draws fuel 0 start.bareName .refl
  unfold leaves
  rw [hexpand]
  rfl

theorem yields_setConfig_iff {c d : Config} (h : c.maxDepth = d.maxDepth)
    {result : Except GenerationFault (List Text)} :
    (g.setConfig c).Yields draws start pos result stop ↔
      (g.setConfig d).Yields draws start pos result stop := by
  unfold Yields
  simp only [leaves_setConfig h]

/-- What a start comes to under all configurations with one depth limit: the leaves or the failure,
    and where the next draw is; nothing if it comes to no end. -/
theorem exists_outcome (g : Grammar) (draws : Draws) (start : Text) (pos : Nat)
    (limit : Option UInt64) :
    ∃ outcome : Option (Except GenerationFault (List Text) × Nat),
      ∀ c : Config, c.maxDepth = limit → ∀ result stop,
        (g.setConfig c).Yields draws start pos result stop ↔ outcome = some (result, stop) := by
  by_cases hends : ∃ result stop,
      (g.setConfig { maxDepth := limit }).Yields draws start pos result stop
  · obtain ⟨result, stop, hyields⟩ := hends
    refine ⟨some (result, stop), fun c hc result' stop' => ?_⟩
    rw [yields_setConfig_iff (d := { maxDepth := limit }) hc]
    constructor
    · intro h
      obtain ⟨rfl, rfl⟩ := hyields.unique h
      rfl
    · intro h
      cases h
      exact hyields
  · refine ⟨none, fun c hc result stop => ?_⟩
    rw [yields_setConfig_iff (d := { maxDepth := limit }) hc]
    exact ⟨fun h => absurd ⟨result, stop, h⟩ hends, fun h => nomatch h⟩

/-! ## 3. Sentences -/

/-- **The separator and the trimming render, and do nothing else.** A sentence written in place is
    that of its leaves, and under all configurations with one depth limit a start comes to one
    outcome, with the same draws: to the same failure, or to the same leaves, of which the sentence
    has each with the separator behind it, trimmed if so configured. A start without a rule comes
    to itself, trimmed, as the one leaf. -/
theorem separator_and_trim_render_only (g : Grammar) (draws : Draws) (start : Text) (pos : Nat) :
    (∀ c fuel, (g.setConfig c).writeSentence draws fuel start =
      (g.setConfig c).generate draws fuel start) ∧
    ∀ limit : Option UInt64, ∃ outcome : Option (Except GenerationFault (List Text) × Nat),
      (g.has start = false → outcome = some (.ok [start.trim], pos)) ∧
      ∀ c : Config, c.maxDepth = limit → ∀ r stop,
        (g.setConfig c).Returns draws start pos r stop ↔
          ∃ result, outcome = some (result, stop) ∧ r = result.map fun leaves =>
            if c.trim then Text.trim (leaves.flatMap (· ++ c.separator))
            else leaves.flatMap (· ++ c.separator) := by
  refine ⟨fun c fuel => writeSentence_eq _ draws fuel start, fun limit => ?_⟩
  obtain ⟨outcome, houtcome⟩ := exists_outcome g draws start pos limit
  refine ⟨outcome, fun hs => ?_, fun c hc r stop => ?_⟩
  · exact (houtcome { maxDepth := limit } rfl _ _).1
      (yields_of_not_has (g := g.setConfig { maxDepth := limit }) hs draws pos)
  · rw [returns_iff_exists_yields]
    simp only [houtcome c hc]
    rfl

/-- A rule with text that begins with a space, a name without a rule, and text of no characters. -/
def motley : Grammar where
  rules := Table.empty.insert "s".toList
    ⟨[⟨[.terminal " a".toList, .nonterminal "u".toList, .terminal []]⟩]⟩
  order := ["s".toList]

/-- An empty separator, and one that reads as a reference and is trimmed. -/
theorem separator_and_trim_render_only_motley :
    (motley.setConfig { separator := [] }).Returns (.ofList []) "s".toList 0
      (.ok " a<u>".toList) 1 ∧
    (∃ leaves : List Text, leaves.flatMap (· ++ []) = " a<u>".toList ∧
      (motley.setConfig { separator := " <s>,".toList, trim := true }).Returns (.ofList [])
        "s".toList 0 (.ok (Text.trim (leaves.flatMap (· ++ " <s>,".toList)))) 1) ∧
    motley.has " x ".toList = false ∧
    (motley.setConfig { separator := " <s>,".toList, trim := true }).Returns (.ofList [])
      " x ".toList 0 (.ok "x <s>,".toList) 0 := by
  have hplain : (motley.setConfig { separator := [] }).Returns (.ofList []) "s".toList 0
      (.ok " a<u>".toList) 1 := ⟨4, rfl⟩
  have hx : motley.has " x ".toList = false := by decide +kernel
  have hends : (motley.setConfig { separator := " <s>,".toList, trim := true }).Returns (.ofList [])
      " x ".toList 0 (.ok "x <s>,".toList) 0 := by
    obtain ⟨-, hall⟩ := separator_and_trim_render_only motley (.ofList []) " x ".toList 0
    obtain ⟨outcome, hliteral, hsame⟩ := hall none
    have htrimmed : (Except.ok "x <s>,".toList : Except GenerationFault Text) =
        .ok (Text.trim ([Text.trim " x ".toList].flatMap (· ++ " <s>,".toList))) := by
      decide +kernel
    exact (hsame { separator := " <s>,".toList, trim := true } rfl _ _).2
      ⟨_, hliteral hx, htrimmed⟩
  obtain ⟨-, hall⟩ := separator_and_trim_render_only motley (.ofList []) "s".toList 0
  obtain ⟨outcome, -, hsame⟩ := hall none
  obtain ⟨result, houtcome, hresult⟩ := (hsame { separator := [] } rfl _ _).1 hplain
  obtain ⟨leaves, rfl, hleaves⟩ := map_eq_ok_iff.1 hresult.symm
  exact ⟨hplain, ⟨leaves, hleaves, (hsame { separator := " <s>,".toList, trim := true } rfl _ _).2
    ⟨_, houtcome, rfl⟩⟩, hx, hends⟩

end Sentences.Grammar
