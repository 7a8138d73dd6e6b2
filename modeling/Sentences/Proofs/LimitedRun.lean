import Mathlib.Algebra.Ring.GeomSum
import Sentences.Proofs.Ending
import Sentences.Proofs.Trace
import Sentences.Proofs.Writes

/-!
# Runs under a depth limit

Under a limit an expansion is a tree of so many levels, cut off wherever it fails, and no name in
it has more children than the longest alternative has symbols. So it ends, and the picks, hence the
draws, are bounded whatever the rules refer to.

* `width`: the number of symbols of the longest alternative;
* `Traced.choices_le`: how many picks an expansion has at most;
* `Traced.stop_le_ofList`: a pick behind a script takes one draw;
* `limited_run_ends`: so a run under a limit comes to an end, and all its counters stay in bounds.
-/

namespace Sentences.Grammar

/-- The greatest number of symbols that an alternative has. -/
def width (g : Grammar) : Nat :=
  ((g.rules.entries.flatMap (·.2.productions)).map (·.symbols.length)).foldr max 0

variable {g : Grammar} {draws : Draws} {depth pos stop : Nat} {ss : List Symbol}
  {r : Except GenerationFault (List Text)} {log : List Event}

theorem length_le_width {name : Text} {rule : Rule} {p : Production}
    (hname : g.rules.get? name = some rule) (hp : p ∈ rule.productions) :
    p.symbols.length ≤ g.width := by
  have hentry := (Table.get?_eq_some_iff g.rules name rule).1 hname
  have hmem : p ∈ g.rules.entries.flatMap (·.2.productions) := List.mem_flatMap.2 ⟨_, hentry, hp⟩
  exact List.le_max_of_le (List.mem_map_of_mem hmem) (Nat.le_refl _)

/-! ## 1. Picks -/

/-- What a name comes to, if its alternative keeps to the bound with one level less: the pick of
    the alternative, and a share of the bound for each symbol. -/
theorem succ_le_geom_sum {inside levels : Nat} {name : Text} {rule : Rule} {p : Production}
    (hname : g.rules.get? name = some rule) (hp : p ∈ rule.productions) (hlevels : 0 < levels)
    (h : inside ≤ p.symbols.length * ∑ i ∈ Finset.range (levels - 1), g.width ^ i) :
    inside + 1 ≤ ∑ i ∈ Finset.range levels, g.width ^ i := by
  have hwide := Nat.mul_le_mul_right (∑ i ∈ Finset.range (levels - 1), g.width ^ i)
    (length_le_width hname hp)
  have hsum := geom_sum_succ (x := g.width) (n := levels - 1)
  rw [Nat.sub_add_cancel hlevels] at hsum
  omega

/-- **How many alternatives are picked at most**: each symbol leads to as many picks as a full tree
    of the levels that are left has inner nodes. -/
theorem Traced.choices_le {limit : UInt64} (hlimit : g.config.maxDepth = some limit)
    (h : g.Traced draws depth ss pos r stop log) :
    choices log ≤ ss.length * ∑ i ∈ Finset.range (limit.toNat - depth), g.width ^ i := by
  induction h with
  | nil => exact Nat.zero_le _
  | terminal _ _ ih | undefined _ _ ih =>
    rw [choices_call, List.length_cons, Nat.succ_mul]
    omega
  | tooDeep | noAlternatives => exact Nat.zero_le _
  | failed _ hname hnone _ hp _ ih =>
    have hlt := limitAt?_eq_none_iff.1 hnone limit hlimit
    rw [← Nat.sub_sub] at ih
    have hone := succ_le_geom_sum hname (List.mem_of_getElem? hp) (Nat.sub_pos_of_lt hlt) ih
    rw [choices_call, choices_choice, List.length_cons, Nat.succ_mul]
    omega
  | node hname hnone _ hp _ _ ihInner ihLater =>
    have hlt := limitAt?_eq_none_iff.1 hnone limit hlimit
    rw [← Nat.sub_sub] at ihInner
    have hone := succ_le_geom_sum hname (List.mem_of_getElem? hp) (Nat.sub_pos_of_lt hlt) ihInner
    rw [choices_call, choices_choice, choices_append, List.length_cons, Nat.succ_mul]
    omega

/-! ## 2. Draws -/

/-- Every pick takes a draw. -/
theorem Traced.pos_add_choices_le (h : g.Traced draws depth ss pos r stop log) :
    pos + choices log ≤ stop := by
  induction h with
  | nil => exact Nat.le_refl _
  | terminal _ _ ih | undefined _ _ ih => exact ih
  | tooDeep | noAlternatives => exact Nat.le_refl _
  | failed _ _ _ hpick _ _ ih =>
    have hmid := hpick.pos_lt
    rw [choices_call, choices_choice]
    omega
  | node _ _ hpick _ _ _ ihInner ihLater =>
    have hmid := hpick.pos_lt
    rw [choices_call, choices_choice, choices_append]
    omega

/-- **Behind a script every pick takes one draw**, and before its end no more than the script has
    are passed over. -/
theorem Traced.stop_le_ofList {script : List UInt64}
    (h : g.Traced (.ofList script) depth ss pos r stop log) :
    stop ≤ max pos script.length + choices log := by
  induction h with
  | nil => exact Nat.le_max_left _ _
  | terminal _ _ ih | undefined _ _ ih => exact ih
  | tooDeep | noAlternatives => exact Nat.le_max_left _ _
  | failed _ _ _ hpick _ _ ih =>
    have hmid := hpick.le_ofList
    rw [choices_call, choices_choice]
    omega
  | node _ _ hpick _ _ _ ihInner ihLater =>
    have hmid := hpick.le_ofList
    rw [choices_call, choices_choice, choices_append]
    omega

/-! ## 3. Sentences -/

/-- **A run under a limit comes to an end, and nothing overflows on the way.** Along a script it
    comes to a sentence, to a name without alternatives, or to the limit. No call is made below the
    limit, whatever is picked is there, there are no more picks than a full tree of as many levels
    as the limit has inner nodes, and no more draws than picks and draws of the script. -/
theorem limited_run_ends {limit : UInt64} (hlimit : g.config.maxDepth = some limit) (start : Text)
    (script : List UInt64) (pos : Nat) :
    (∃ r stop log, g.Runs (.ofList script) start pos r stop log) ∧
    ∀ r stop log, g.Runs (.ofList script) start pos r stop log →
      g.Returns (.ofList script) start pos r stop ∧
      ((∃ text, r = .ok text) ∨ (∃ name, r = .error (.noAlternatives name)) ∨
        ∃ name, r = .error (.tooDeep name limit)) ∧
      (∀ depth s, .call depth s ∈ log → depth ≤ limit.toNat) ∧
      (∀ alternatives picked, .choice alternatives picked ∈ log → picked < alternatives) ∧
      choices log ≤ ∑ i ∈ Finset.range limit.toNat, g.width ^ i ∧
      choices log ≤ stop - pos ∧ stop - pos ≤ choices log + (script.length - pos) := by
  constructor
  · obtain ⟨r, stop, h⟩ := exists_returns_of_acc (Draws.settles_ofList script)
      (acc_inside_of_limit hlimit (0, start.bareName)) pos
    obtain ⟨log, hlog⟩ := returns_iff_exists_runs.1 h
    exact ⟨r, stop, log, hlog⟩
  · intro r stop log hrun
    refine ⟨returns_iff_exists_runs.2 ⟨log, hrun⟩, ?_⟩
    cases hrun with
    | written =>
      refine ⟨.inl ⟨_, rfl⟩, fun _ _ hc => absurd hc List.not_mem_nil,
        fun _ _ hc => absurd hc List.not_mem_nil, Nat.zero_le _, Nat.zero_le _, ?_⟩
      rw [Nat.sub_self]
      exact Nat.zero_le _
    | @expanded _ _ leaves _ hs h =>
      have hfits := h.forall_fits (handsOn_le hlimit)
        (List.forall_mem_singleton.2 (Nat.zero_le limit.toNat))
      have hchoices := h.choices_le hlimit
      rw [List.length_singleton, Nat.one_mul, Nat.sub_zero] at hchoices
      have htaken := h.pos_add_choices_le
      have hscript := h.stop_le_ofList
      refine ⟨?_, fun _ _ hc => hfits _ hc, fun _ _ hc => hfits _ hc, hchoices, by omega, by omega⟩
      cases leaves with
      | ok leaves => exact .inl ⟨_, rfl⟩
      | error e =>
        obtain ⟨_, name, _, hfails⟩ := h.exists_failsAt rfl
        rcases hfails.eq_or_eq hlimit with rfl | rfl
        · exact .inr (.inl ⟨name, rfl⟩)
        · exact .inr (.inr ⟨name, rfl⟩)

/-- A name that is text, or the name twice. -/
def doubling : Grammar where
  rules := Table.empty.insert "s".toList
    ⟨[⟨[.terminal "a".toList]⟩, ⟨[.nonterminal "s".toList, .nonterminal "s".toList]⟩]⟩
  order := ["s".toList]
  config := { maxDepth := some 2 }

/-- The name twice, and text in both places: all the picks that there can be. -/
theorem limited_run_ends_doubling :
    doubling.config.maxDepth = some 2 ∧ doubling.width = 2 ∧
    ∃ log, doubling.Runs (.ofList [Draws.drawFor 2 1]) "<s>".toList 0 (.ok "a a ".toList) 3 log ∧
      (∀ depth s, .call depth s ∈ log → depth ≤ 2) ∧ 2 ≤ choices log ∧ choices log ≤ 3 := by
  have hlimit : doubling.config.maxDepth = some 2 := rfl
  have hwidth : doubling.width = 2 := by decide +kernel
  obtain ⟨⟨r, stop, log, hrun⟩, hall⟩ :=
    limited_run_ends hlimit "<s>".toList [Draws.drawFor 2 1] 0
  obtain ⟨hreturns, -, hdepth, -, hchoices, -, hdraws⟩ := hall r stop log hrun
  have hsentence : doubling.Returns (.ofList [Draws.drawFor 2 1]) "<s>".toList 0
      (.ok "a a ".toList) 3 := ⟨4, rfl⟩
  obtain ⟨rfl, rfl⟩ := hreturns.unique hsentence
  rw [hwidth] at hchoices
  have hpicks : 2 ≤ choices log := Nat.le_of_succ_le_succ hdraws
  exact ⟨hlimit, hwidth, log, hrun, hdepth, hpicks, hchoices⟩

end Sentences.Grammar
