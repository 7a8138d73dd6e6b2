import Sentences.Generation
import Sentences.Proofs.Picking

/-!
# Expansion without fuel

* `Expands`: the rules by which a list of symbols at a depth expands along the draws, with the
  position before and after and the result, a failure included. A list rather than one symbol, so
  that what comes after a symbol is part of the same rule;
* `exists_expand_iff`: with enough fuel, `expand` follows these rules;
* `expand_extends`: more fuel never changes an answer;
* `Returns`: what a start comes to, which is one result only (`Returns.unique`); `returns_iff_of_has`
  says it by the rules for a start that has a rule, `returns_iff_of_not_has` for one that has none.
-/

namespace Sentences.Grammar

/-! ## 1. The rules -/

/-- How symbols at a depth expand, from one position of the draws to another. -/
inductive Expands (g : Grammar) (draws : Draws) :
    Nat → List Symbol → Nat → Except GenerationFault (List Text) → Nat → Prop where
  | nil (depth pos : Nat) : Expands g draws depth [] pos (.ok []) pos
  | terminal (text : Text) {depth pos stop : Nat} {rest : List Symbol}
      {r : Except GenerationFault (List Text)} (later : Expands g draws depth rest pos r stop) :
      Expands g draws depth (.terminal text :: rest) pos (r.map (text :: ·)) stop
  | undefined {name : Text} {depth pos stop : Nat} {rest : List Symbol}
      {r : Except GenerationFault (List Text)} (hname : g.rules.get? name = none)
      (later : Expands g draws depth rest pos r stop) :
      Expands g draws depth (.nonterminal name :: rest) pos (r.map (name.inBrackets :: ·)) stop
  | tooDeep {name : Text} {rule : Rule} {limit : UInt64} {depth : Nat} (pos : Nat)
      (rest : List Symbol) (hname : g.rules.get? name = some rule)
      (hlimit : g.config.limitAt? depth = some limit) :
      Expands g draws depth (.nonterminal name :: rest) pos (.error (.tooDeep name limit)) pos
  | noAlternatives {name : Text} {rule : Rule} {depth : Nat} (pos : Nat) (rest : List Symbol)
      (hname : g.rules.get? name = some rule) (hlimit : g.config.limitAt? depth = none)
      (hrule : rule.productions = []) :
      Expands g draws depth (.nonterminal name :: rest) pos (.error (.noAlternatives name)) pos
  | failed {name : Text} {rule : Rule} {p : Production} {i depth pos mid stop : Nat}
      (rest : List Symbol) {e : GenerationFault} (hname : g.rules.get? name = some rule)
      (hlimit : g.config.limitAt? depth = none)
      (hpick : draws.Picks rule.productions.length pos i mid)
      (hp : rule.productions[i]? = some p)
      (inner : Expands g draws (depth + 1) p.symbols mid (.error e) stop) :
      Expands g draws depth (.nonterminal name :: rest) pos (.error e) stop
  | node {name : Text} {rule : Rule} {p : Production} {i depth pos mid after stop : Nat}
      {rest : List Symbol} {leaves : List Text} {r : Except GenerationFault (List Text)}
      (hname : g.rules.get? name = some rule) (hlimit : g.config.limitAt? depth = none)
      (hpick : draws.Picks rule.productions.length pos i mid)
      (hp : rule.productions[i]? = some p)
      (inner : Expands g draws (depth + 1) p.symbols mid (.ok leaves) after)
      (later : Expands g draws depth rest after r stop) :
      Expands g draws depth (.nonterminal name :: rest) pos (r.map (leaves ++ ·)) stop

variable {g : Grammar} {draws : Draws}

/-- A depth is let through when every limit there may be is greater. -/
theorem limitAt?_eq_none_iff {c : Config} {depth : Nat} :
    c.limitAt? depth = none ↔ ∀ limit, c.maxDepth = some limit → depth < limit.toNat := by
  unfold Config.limitAt?
  cases h : c.maxDepth with
  | none => simp
  | some limit => simp [Option.filter_some]

/-- A depth that is not let through has reached the limit that there is. -/
theorem limitAt?_eq_some_iff {c : Config} {depth : Nat} {limit : UInt64} :
    c.limitAt? depth = some limit ↔ c.maxDepth = some limit ∧ limit.toNat ≤ depth := by
  unfold Config.limitAt?
  rw [Option.filter_eq_some_iff, decide_eq_true_eq]

/-- Draws are read forwards. -/
theorem Expands.pos_le {depth pos stop : Nat} {ss : List Symbol}
    {r : Except GenerationFault (List Text)} (h : g.Expands draws depth ss pos r stop) :
    pos ≤ stop := by
  induction h with
  | nil => exact Nat.le_refl _
  | terminal _ _ ih => exact ih
  | undefined _ _ ih => exact ih
  | tooDeep => exact Nat.le_refl _
  | noAlternatives => exact Nat.le_refl _
  | failed _ _ _ hpick _ _ ih => exact Nat.le_trans (Nat.le_of_lt hpick.pos_lt) ih
  | node _ _ hpick _ _ _ ihInner ihLater =>
    exact Nat.le_trans (Nat.le_of_lt hpick.pos_lt) (Nat.le_trans ihInner ihLater)

/-! ## 2. What a fuelled expansion can do -/

/-- A nonterminal is a literal leaf, fails at once, or has one of its alternatives expanded. -/
theorem expand_nonterminal_cases {fuel depth pos stop : Nat} {name : Text}
    {r : Except GenerationFault (List Text)}
    (h : g.expand draws fuel depth (.nonterminal name) pos = some (r, stop)) :
    (g.rules.get? name = none ∧ r = .ok [name.inBrackets] ∧ stop = pos) ∨
      (∃ rule limit, g.rules.get? name = some rule ∧ g.config.limitAt? depth = some limit ∧
        r = .error (.tooDeep name limit) ∧ stop = pos) ∨
      (∃ rule, g.rules.get? name = some rule ∧ g.config.limitAt? depth = none ∧
        rule.productions = [] ∧ r = .error (.noAlternatives name) ∧ stop = pos) ∨
      ∃ rule less i mid p, fuel = less + 1 ∧ g.rules.get? name = some rule ∧
        g.config.limitAt? depth = none ∧ draws.Picks rule.productions.length pos i mid ∧
        rule.productions[i]? = some p ∧
        Walk.concat (g.expand draws less (depth + 1)) p.symbols mid = some (r, stop) := by
  cases hname : g.rules.get? name with
  | none =>
    rw [expand_undefined hname] at h
    cases h
    exact .inl ⟨rfl, rfl, rfl⟩
  | some rule =>
    refine .inr ?_
    cases hlimit : g.config.limitAt? depth with
    | some limit =>
      rw [expand_tooDeep hname hlimit] at h
      cases h
      exact .inl ⟨rule, limit, rfl, rfl, rfl, rfl⟩
    | none =>
      refine .inr ?_
      by_cases hrule : rule.productions = []
      · rw [expand_noAlternatives hname hlimit hrule] at h
        cases h
        exact .inl ⟨rule, rfl, rfl, hrule, rfl, rfl⟩
      · have hpos : 0 < rule.productions.length := List.length_pos_iff.2 hrule
        cases fuel with
        | zero =>
          rw [expand_zero hname hlimit hpos] at h
          cases h
        | succ less =>
          rw [expand_succ hname hlimit hpos, Walk.andThen_eq_some_iff] at h
          rcases h with ⟨e, hc, _⟩ | ⟨i, mid, hc, hinner⟩
          · simp [Draws.choose] at hc
          · simp only [Draws.choose, Option.map_eq_some_iff, Prod.mk.injEq, Except.ok.injEq] at hc
            obtain ⟨⟨j, next⟩, hpick, rfl, rfl⟩ := hc
            exact .inr ⟨rule, less, j, next, rule.productions[j], rfl, rfl, rfl,
              Draws.picks_of_pick hpick, List.getElem?_eq_getElem j.isLt, hinner⟩

/-- More fuel never changes an answer. -/
theorem expand_extends (g : Grammar) (draws : Draws) : ∀ (fuel depth : Nat) (s : Symbol),
    Walk.Extends (g.expand draws fuel depth s) (g.expand draws (fuel + 1) depth s)
  | fuel, depth, .terminal text => by
    rw [expand_terminal, expand_terminal]
    exact Walk.Extends.refl _
  | fuel, depth, .nonterminal name => by
    cases hname : g.rules.get? name with
    | none =>
      rw [expand_undefined hname, expand_undefined hname]
      exact Walk.Extends.refl _
    | some rule =>
      cases hlimit : g.config.limitAt? depth with
      | some limit =>
        rw [expand_tooDeep hname hlimit, expand_tooDeep hname hlimit]
        exact Walk.Extends.refl _
      | none =>
        by_cases hrule : rule.productions = []
        · rw [expand_noAlternatives hname hlimit hrule, expand_noAlternatives hname hlimit hrule]
          exact Walk.Extends.refl _
        · have hpos : 0 < rule.productions.length := List.length_pos_iff.2 hrule
          rw [expand_succ hname hlimit hpos]
          cases fuel with
          | zero =>
            rw [expand_zero hname hlimit hpos]
            exact Walk.Extends.spent _
          | succ fuel =>
            rw [expand_succ hname hlimit hpos]
            exact (Draws.choose_extends hpos _).andThen fun i =>
              Walk.Extends.concat (fun s => expand_extends g draws fuel (depth + 1) s) _

theorem expand_extends_add (g : Grammar) (draws : Draws) (fuel more depth : Nat) (s : Symbol) :
    Walk.Extends (g.expand draws fuel depth s) (g.expand draws (fuel + more) depth s) := by
  induction more with
  | zero => exact Walk.Extends.refl _
  | succ more ih => exact ih.trans (expand_extends g draws (fuel + more) depth s)

/-- The symbols of a list, expanded with fuel. -/
theorem concat_expand_mono {fuel more depth : Nat} (h : fuel ≤ more) (ss : List Symbol) :
    Walk.Extends (Walk.concat (g.expand draws fuel depth) ss)
      (Walk.concat (g.expand draws more depth) ss) := by
  obtain ⟨k, rfl⟩ := Nat.exists_eq_add_of_le h
  exact Walk.Extends.concat (fun s => expand_extends_add g draws fuel k depth s) ss

/-! ## 3. The rules are followed -/

theorem expands_of_concat : ∀ (fuel depth : Nat) (ss : List Symbol) (pos stop : Nat)
    (r : Except GenerationFault (List Text)),
    Walk.concat (g.expand draws fuel depth) ss pos = some (r, stop) →
      g.Expands draws depth ss pos r stop
  | _, depth, [], pos, _, _, h => by
    cases h
    exact .nil depth pos
  | fuel, depth, .terminal text :: rest, pos, stop, r, h => by
    rw [Walk.concat_cons_eq_some_iff, expand_terminal] at h
    rcases h with ⟨e, hs, _⟩ | ⟨xs, mid, r', hs, hrest, rfl⟩
    · cases hs
    · cases hs
      exact .terminal text (expands_of_concat fuel depth rest pos stop r' hrest)
  | fuel, depth, .nonterminal name :: rest, pos, stop, r, h => by
    rw [Walk.concat_cons_eq_some_iff] at h
    rcases h with ⟨e, hs, rfl⟩ | ⟨xs, mid, r', hs, hrest, rfl⟩
    · rcases expand_nonterminal_cases hs with ⟨_, hr, _⟩ | ⟨rule, limit, hname, hlimit, hr, rfl⟩ |
        ⟨rule, hname, hlimit, hrule, hr, rfl⟩ |
        ⟨rule, less, i, next, p, rfl, hname, hlimit, hpick, hp, hinner⟩
      · cases hr
      · cases hr
        exact .tooDeep _ rest hname hlimit
      · cases hr
        exact .noAlternatives _ rest hname hlimit hrule
      · exact .failed rest hname hlimit hpick hp
          (expands_of_concat less (depth + 1) p.symbols next stop (.error e) hinner)
    · have later := expands_of_concat fuel depth rest mid stop r' hrest
      rcases expand_nonterminal_cases hs with ⟨hname, hr, rfl⟩ | ⟨rule, limit, _, _, hr, _⟩ |
        ⟨rule, _, _, _, hr, _⟩ | ⟨rule, less, i, next, p, rfl, hname, hlimit, hpick, hp, hinner⟩
      · cases hr
        exact .undefined hname later
      · cases hr
      · cases hr
      · exact .node hname hlimit hpick hp
          (expands_of_concat less (depth + 1) p.symbols next mid (.ok xs) hinner) later
termination_by fuel _ ss => (fuel, ss.length)

/-- A picked alternative, expanded with enough fuel, expands the nonterminal. -/
theorem expand_of_picks {fuel depth pos mid stop : Nat} {name : Text} {rule : Rule} {i : Nat}
    {p : Production} {r : Except GenerationFault (List Text)}
    (hname : g.rules.get? name = some rule) (hlimit : g.config.limitAt? depth = none)
    (hpick : draws.Picks rule.productions.length pos i mid) (hp : rule.productions[i]? = some p)
    (h : Walk.concat (g.expand draws fuel (depth + 1)) p.symbols mid = some (r, stop)) :
    ∃ more, g.expand draws more depth (.nonterminal name) pos = some (r, stop) := by
  obtain ⟨hi, hpi⟩ := List.getElem?_eq_some_iff.1 hp
  have hpos : 0 < rule.productions.length := Nat.zero_lt_of_lt hi
  obtain ⟨need, hneed⟩ := Draws.pick_of_picks hpos hpick
  have hpicked := Draws.pick_mono (Nat.le_add_left need (fuel + 1)) hneed
  have hinner := concat_expand_mono (Nat.le_add_right fuel need) p.symbols mid _ h
  refine ⟨fuel + need + 1, ?_⟩
  rw [expand_succ hname hlimit hpos, Walk.andThen_eq_some_iff]
  refine .inr ⟨⟨i, hi⟩, mid, ?_, ?_⟩
  · rw [Draws.choose, Nat.add_right_comm, hpicked]
    rfl
  · rw [← hpi] at hinner
    exact hinner

theorem concat_of_expands {depth pos stop : Nat} {ss : List Symbol}
    {r : Except GenerationFault (List Text)} (h : g.Expands draws depth ss pos r stop) :
    ∃ fuel, Walk.concat (g.expand draws fuel depth) ss pos = some (r, stop) := by
  induction h with
  | nil depth pos => exact ⟨0, rfl⟩
  | terminal text _ ih =>
    obtain ⟨fuel, hf⟩ := ih
    refine ⟨fuel, Walk.concat_cons_eq_some_iff.2 (.inr ⟨[text], _, _, ?_, hf, rfl⟩)⟩
    rw [expand_terminal]
    rfl
  | undefined hname _ ih =>
    obtain ⟨fuel, hf⟩ := ih
    refine ⟨fuel, Walk.concat_cons_eq_some_iff.2 (.inr ⟨[_], _, _, ?_, hf, rfl⟩)⟩
    rw [expand_undefined hname]
    rfl
  | tooDeep pos rest hname hlimit =>
    refine ⟨0, Walk.concat_cons_eq_some_iff.2 (.inl ⟨_, ?_, rfl⟩)⟩
    rw [expand_tooDeep hname hlimit]
    rfl
  | noAlternatives pos rest hname hlimit hrule =>
    refine ⟨0, Walk.concat_cons_eq_some_iff.2 (.inl ⟨_, ?_, rfl⟩)⟩
    rw [expand_noAlternatives hname hlimit hrule]
    rfl
  | failed rest hname hlimit hpick hp _ ih =>
    obtain ⟨fuel, hf⟩ := ih
    obtain ⟨more, hm⟩ := expand_of_picks hname hlimit hpick hp hf
    exact ⟨more, Walk.concat_cons_eq_some_iff.2 (.inl ⟨_, hm, rfl⟩)⟩
  | node hname hlimit hpick hp _ _ ihInner ihLater =>
    obtain ⟨fuel, hf⟩ := ihInner
    obtain ⟨later, hl⟩ := ihLater
    obtain ⟨more, hm⟩ := expand_of_picks hname hlimit hpick hp hf
    have head := expand_extends_add g draws more later _ _ _ _ hm
    have tail := concat_expand_mono (Nat.le_add_left later more) _ _ _ hl
    exact ⟨more + later, Walk.concat_cons_eq_some_iff.2 (.inr ⟨_, _, _, head, tail, rfl⟩)⟩

/-- **With enough fuel, symbols expand by the rules and in no other way.** -/
theorem exists_concat_iff {depth pos stop : Nat} {ss : List Symbol}
    {r : Except GenerationFault (List Text)} :
    (∃ fuel, Walk.concat (g.expand draws fuel depth) ss pos = some (r, stop)) ↔
      g.Expands draws depth ss pos r stop :=
  ⟨fun ⟨fuel, h⟩ => expands_of_concat fuel depth ss pos stop r h, concat_of_expands⟩

theorem exists_expand_iff {depth pos stop : Nat} {s : Symbol}
    {r : Except GenerationFault (List Text)} :
    (∃ fuel, g.expand draws fuel depth s pos = some (r, stop)) ↔
      g.Expands draws depth [s] pos r stop := by
  rw [← exists_concat_iff]
  refine exists_congr fun fuel => ?_
  rw [Walk.concat_singleton]

/-! ## 4. Sentences -/

/-- Along the draws from a position, a start comes to a result, and the next draw is at `stop`. -/
def Returns (g : Grammar) (draws : Draws) (start : Text) (pos : Nat)
    (r : Except GenerationFault Text) (stop : Nat) : Prop :=
  ∃ fuel, g.generate draws fuel start pos = some (r, stop)

theorem leaves_extends (g : Grammar) (draws : Draws) (start : Text) (fuel more : Nat) :
    Walk.Extends (g.leaves draws fuel start) (g.leaves draws (fuel + more) start) := by
  unfold leaves
  split
  · exact expand_extends_add g draws fuel more 0 _
  · exact Walk.Extends.refl _

theorem generate_extends (g : Grammar) (draws : Draws) (start : Text) (fuel more : Nat) :
    Walk.Extends (g.generate draws fuel start) (g.generate draws (fuel + more) start) :=
  (leaves_extends g draws start fuel more).map _

/-- A start comes to one result only, whatever the fuel. -/
theorem Returns.unique {start : Text} {pos stop stop' : Nat} {r r' : Except GenerationFault Text}
    (h : g.Returns draws start pos r stop) (h' : g.Returns draws start pos r' stop') :
    r = r' ∧ stop = stop' := by
  obtain ⟨fuel, hf⟩ := h
  obtain ⟨more, hm⟩ := h'
  exact Prod.mk.inj (Walk.Extends.unique (generate_extends g draws start) hf hm)

/-- A start without a rule is written out, trimmed, and takes no draws. -/
theorem generate_of_not_has {s : Text} (hs : g.has s = false) (draws : Draws) (fuel pos : Nat) :
    g.generate draws fuel s pos = some (.ok (g.config.sentence [s.trim]), pos) := by
  unfold generate leaves
  rw [hs, if_neg Bool.false_ne_true]
  rfl

theorem returns_iff_of_not_has {start : Text} (hs : g.has start = false) {pos stop : Nat}
    {r : Except GenerationFault Text} :
    g.Returns draws start pos r stop ↔ r = .ok (g.config.sentence [start.trim]) ∧ stop = pos := by
  unfold Returns
  simp only [generate_of_not_has hs, exists_const, Option.some.injEq, Prod.mk.injEq]
  rw [eq_comm, eq_comm (a := pos)]

/-- A start with a rule comes to the sentence of the leaves it expands to, or to its failure. -/
theorem returns_iff_of_has {start : Text} (hs : g.has start = true) {pos stop : Nat}
    {r : Except GenerationFault Text} :
    g.Returns draws start pos r stop ↔
      ∃ r', g.Expands draws 0 [.nonterminal start.bareName] pos r' stop ∧
        r = r'.map g.config.sentence := by
  simp only [Returns, generate, leaves, hs, if_true, Walk.map_eq_some_iff, ← exists_expand_iff]
  constructor
  · rintro ⟨fuel, r', h, hr⟩
    exact ⟨r', ⟨fuel, h⟩, hr⟩
  · rintro ⟨r', ⟨fuel, h⟩, hr⟩
    exact ⟨fuel, r', h, hr⟩

end Sentences.Grammar
