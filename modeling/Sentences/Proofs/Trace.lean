import Sentences.Proofs.Expansion

/-!
# What an expansion does on its way

An expansion goes from call to call: a symbol is looked at, at some depth, and if it is a name with
alternatives one of these is picked and its symbols are called one level deeper. A log has these
events in order, up to the end or to the failure.

* `Traced`: the rules of `Expands`, with the log; `expands_iff_exists_traced` says that they are the
  same rules;
* `Traced.forall_fits`: what each call hands on to the calls inside it holds of all of them, and
  every pick is one of the alternatives there are;
* `Traced.exists_failsAt`: a failure is the failure of a call, for the reason it gives;
* `Runs`, `returns_iff_exists_runs`: the same for whole sentences.
-/

namespace Sentences.Grammar

/-! ## 1. Events -/

/-- What happens in the course of an expansion. -/
inductive Event where
  /-- The expansion of a symbol begins, at a depth. -/
  | call (depth : Nat) (s : Symbol)
  /-- One of so many alternatives is picked, by its number. -/
  | choice (alternatives picked : Nat)
  deriving DecidableEq

/-- Whether an alternative is picked. -/
def Event.isChoice : Event → Bool
  | .call _ _ => false
  | .choice _ _ => true

/-- How often an alternative is picked. -/
def choices (log : List Event) : Nat :=
  log.countP Event.isChoice

@[simp] theorem choices_nil : choices [] = 0 := rfl

@[simp] theorem choices_call (depth : Nat) (s : Symbol) (log : List Event) :
    choices (.call depth s :: log) = choices log := rfl

@[simp] theorem choices_choice (n i : Nat) (log : List Event) :
    choices (.choice n i :: log) = choices log + 1 :=
  List.countP_cons_of_pos rfl

@[simp] theorem choices_append (log more : List Event) :
    choices (log ++ more) = choices log + choices more :=
  List.countP_append

/-! ## 2. The rules, with the log -/

/-- How symbols at a depth expand, and what happens on the way. -/
inductive Traced (g : Grammar) (draws : Draws) : Nat → List Symbol → Nat →
    Except GenerationFault (List Text) → Nat → List Event → Prop where
  | nil (depth pos : Nat) : Traced g draws depth [] pos (.ok []) pos []
  | terminal (text : Text) {depth pos stop : Nat} {rest : List Symbol} {log : List Event}
      {r : Except GenerationFault (List Text)} (later : Traced g draws depth rest pos r stop log) :
      Traced g draws depth (.terminal text :: rest) pos (r.map (text :: ·)) stop
        (.call depth (.terminal text) :: log)
  | undefined {name : Text} {depth pos stop : Nat} {rest : List Symbol} {log : List Event}
      {r : Except GenerationFault (List Text)} (hname : g.rules.get? name = none)
      (later : Traced g draws depth rest pos r stop log) :
      Traced g draws depth (.nonterminal name :: rest) pos (r.map (name.inBrackets :: ·)) stop
        (.call depth (.nonterminal name) :: log)
  | tooDeep {name : Text} {rule : Rule} {limit : UInt64} {depth : Nat} (pos : Nat)
      (rest : List Symbol) (hname : g.rules.get? name = some rule)
      (hlimit : g.config.limitAt? depth = some limit) :
      Traced g draws depth (.nonterminal name :: rest) pos (.error (.tooDeep name limit)) pos
        [.call depth (.nonterminal name)]
  | noAlternatives {name : Text} {rule : Rule} {depth : Nat} (pos : Nat) (rest : List Symbol)
      (hname : g.rules.get? name = some rule) (hlimit : g.config.limitAt? depth = none)
      (hrule : rule.productions = []) :
      Traced g draws depth (.nonterminal name :: rest) pos (.error (.noAlternatives name)) pos
        [.call depth (.nonterminal name)]
  | failed {name : Text} {rule : Rule} {p : Production} {i depth pos mid stop : Nat}
      {log : List Event} (rest : List Symbol) {e : GenerationFault}
      (hname : g.rules.get? name = some rule) (hlimit : g.config.limitAt? depth = none)
      (hpick : draws.Picks rule.productions.length pos i mid)
      (hp : rule.productions[i]? = some p)
      (inner : Traced g draws (depth + 1) p.symbols mid (.error e) stop log) :
      Traced g draws depth (.nonterminal name :: rest) pos (.error e) stop
        (.call depth (.nonterminal name) :: .choice rule.productions.length i :: log)
  | node {name : Text} {rule : Rule} {p : Production} {i depth pos mid after stop : Nat}
      {rest : List Symbol} {leaves : List Text} {log more : List Event}
      {r : Except GenerationFault (List Text)}
      (hname : g.rules.get? name = some rule) (hlimit : g.config.limitAt? depth = none)
      (hpick : draws.Picks rule.productions.length pos i mid)
      (hp : rule.productions[i]? = some p)
      (inner : Traced g draws (depth + 1) p.symbols mid (.ok leaves) after log)
      (later : Traced g draws depth rest after r stop more) :
      Traced g draws depth (.nonterminal name :: rest) pos (r.map (leaves ++ ·)) stop
        (.call depth (.nonterminal name) :: .choice rule.productions.length i :: (log ++ more))

variable {g : Grammar} {draws : Draws} {depth pos stop : Nat} {ss : List Symbol}
  {r : Except GenerationFault (List Text)} {log : List Event}

theorem Traced.expands (h : g.Traced draws depth ss pos r stop log) :
    g.Expands draws depth ss pos r stop := by
  induction h with
  | nil depth pos => exact .nil depth pos
  | terminal text _ ih => exact .terminal text ih
  | undefined hname _ ih => exact .undefined hname ih
  | tooDeep pos rest hname hlimit => exact .tooDeep pos rest hname hlimit
  | noAlternatives pos rest hname hlimit hrule => exact .noAlternatives pos rest hname hlimit hrule
  | failed rest hname hlimit hpick hp _ ih => exact .failed rest hname hlimit hpick hp ih
  | node hname hlimit hpick hp _ _ ihInner ihLater =>
    exact .node hname hlimit hpick hp ihInner ihLater

theorem Expands.exists_traced (h : g.Expands draws depth ss pos r stop) :
    ∃ log, g.Traced draws depth ss pos r stop log := by
  induction h with
  | nil depth pos => exact ⟨_, .nil depth pos⟩
  | terminal text _ ih =>
    obtain ⟨log, hlog⟩ := ih
    exact ⟨_, .terminal text hlog⟩
  | undefined hname _ ih =>
    obtain ⟨log, hlog⟩ := ih
    exact ⟨_, .undefined hname hlog⟩
  | tooDeep pos rest hname hlimit => exact ⟨_, .tooDeep pos rest hname hlimit⟩
  | noAlternatives pos rest hname hlimit hrule =>
    exact ⟨_, .noAlternatives pos rest hname hlimit hrule⟩
  | failed rest hname hlimit hpick hp _ ih =>
    obtain ⟨log, hlog⟩ := ih
    exact ⟨_, .failed rest hname hlimit hpick hp hlog⟩
  | node hname hlimit hpick hp _ _ ihInner ihLater =>
    obtain ⟨log, hlog⟩ := ihInner
    obtain ⟨more, hmore⟩ := ihLater
    exact ⟨_, .node hname hlimit hpick hp hlog hmore⟩

/-- **Every expansion leaves a log, and a log is kept of nothing else.** -/
theorem expands_iff_exists_traced :
    g.Expands draws depth ss pos r stop ↔ ∃ log, g.Traced draws depth ss pos r stop log :=
  ⟨Expands.exists_traced, fun ⟨_, h⟩ => h.expands⟩

/-! ## 3. What holds of all calls -/

/-- A property of calls goes from the call of a name whose rule is expanded to the calls that this
    leads to. -/
def HandsOn (g : Grammar) (P : Nat → Symbol → Prop) : Prop :=
  ∀ ⦃depth name rule p s⦄, P depth (.nonterminal name) → g.rules.get? name = some rule →
    g.config.limitAt? depth = none → p ∈ rule.productions → s ∈ p.symbols → P (depth + 1) s

/-- A call has the property, and what is picked is one of the alternatives. -/
def Event.Fits (P : Nat → Symbol → Prop) : Event → Prop
  | .call depth s => P depth s
  | .choice alternatives picked => picked < alternatives

/-- **A property that calls hand on holds of all calls** if it holds of the first ones, and whatever
    is picked is there. -/
theorem Traced.forall_fits {P : Nat → Symbol → Prop} (hP : g.HandsOn P)
    (h : g.Traced draws depth ss pos r stop log) (hss : ∀ s ∈ ss, P depth s) :
    ∀ e ∈ log, e.Fits P := by
  induction h with
  | nil => exact List.forall_mem_nil _
  | terminal _ _ ih | undefined _ _ ih =>
    obtain ⟨hfirst, hrest⟩ := List.forall_mem_cons.1 hss
    exact List.forall_mem_cons.2 ⟨hfirst, ih hrest⟩
  | tooDeep | noAlternatives =>
    exact List.forall_mem_singleton.2 (hss _ List.mem_cons_self)
  | failed _ hname hlimit hpick hp _ ih =>
    have hfirst := hss _ List.mem_cons_self
    have hinside := ih fun s hs => hP hfirst hname hlimit (List.mem_of_getElem? hp) hs
    obtain ⟨hi, -⟩ := List.getElem?_eq_some_iff.1 hp
    exact List.forall_mem_cons.2 ⟨hfirst, List.forall_mem_cons.2 ⟨hi, hinside⟩⟩
  | node hname hlimit hpick hp _ _ ihInner ihLater =>
    obtain ⟨hfirst, hrest⟩ := List.forall_mem_cons.1 hss
    have hinside := ihInner fun s hs => hP hfirst hname hlimit (List.mem_of_getElem? hp) hs
    obtain ⟨hi, -⟩ := List.getElem?_eq_some_iff.1 hp
    have hboth := List.forall_mem_append.2 ⟨hinside, ihLater hrest⟩
    exact List.forall_mem_cons.2 ⟨hfirst, List.forall_mem_cons.2 ⟨hi, hboth⟩⟩

/-- Under a limit no call is made below it. -/
theorem handsOn_le {limit : UInt64} (hlimit : g.config.maxDepth = some limit) :
    g.HandsOn fun depth _ => depth ≤ limit.toNat := by
  intro depth _ _ _ _ _ _ hnone _ _
  exact Nat.succ_le_of_lt (limitAt?_eq_none_iff.1 hnone limit hlimit)

/-- Why the call of a name with a rule fails at once. -/
inductive FailsAt (g : Grammar) : Nat → Text → GenerationFault → Prop where
  | tooDeep {name : Text} {rule : Rule} {limit : UInt64} {depth : Nat}
      (hname : g.rules.get? name = some rule) (hlimit : g.config.limitAt? depth = some limit) :
      FailsAt g depth name (.tooDeep name limit)
  | noAlternatives {name : Text} {rule : Rule} {depth : Nat}
      (hname : g.rules.get? name = some rule) (hlimit : g.config.limitAt? depth = none)
      (hrule : rule.productions = []) : FailsAt g depth name (.noAlternatives name)

/-- Under a limit a call fails for want of alternatives, or at this limit. -/
theorem FailsAt.eq_or_eq {name : Text} {e : GenerationFault} {limit : UInt64}
    (hlimit : g.config.maxDepth = some limit) (h : g.FailsAt depth name e) :
    e = .noAlternatives name ∨ e = .tooDeep name limit := by
  cases h with
  | tooDeep _ hreached =>
    obtain ⟨hconfigured, -⟩ := limitAt?_eq_some_iff.1 hreached
    cases hconfigured.symm.trans hlimit
    exact .inr rfl
  | noAlternatives => exact .inl rfl

/-- **A failure is that of a call**, passed on as it is. -/
theorem Traced.exists_failsAt (h : g.Traced draws depth ss pos r stop log) {e : GenerationFault}
    (hr : r = .error e) : ∃ d name, .call d (.nonterminal name) ∈ log ∧ g.FailsAt d name e := by
  induction h with
  | nil => cases hr
  | terminal _ _ ih | undefined _ _ ih =>
    obtain ⟨d, name, hcall, hfails⟩ := ih (map_eq_error_iff.1 hr)
    exact ⟨d, name, List.mem_cons_of_mem _ hcall, hfails⟩
  | @tooDeep name _ _ depth _ _ hname hlimit =>
    cases hr
    exact ⟨depth, name, List.mem_cons_self, .tooDeep hname hlimit⟩
  | @noAlternatives name _ depth _ _ hname hlimit hrule =>
    cases hr
    exact ⟨depth, name, List.mem_cons_self, .noAlternatives hname hlimit hrule⟩
  | failed _ _ _ _ _ _ ih =>
    obtain ⟨d, name, hcall, hfails⟩ := ih hr
    exact ⟨d, name, List.mem_cons_of_mem _ (List.mem_cons_of_mem _ hcall), hfails⟩
  | node _ _ _ _ _ _ _ ihLater =>
    obtain ⟨d, name, hcall, hfails⟩ := ihLater (map_eq_error_iff.1 hr)
    refine ⟨d, name, List.mem_cons_of_mem _ (List.mem_cons_of_mem _ ?_), hfails⟩
    exact List.mem_append.2 (.inr hcall)

/-! ## 4. Sentences -/

/-- What a start comes to, and what happens on the way: nothing if it has no rule. -/
inductive Runs (g : Grammar) (draws : Draws) (start : Text) :
    Nat → Except GenerationFault Text → Nat → List Event → Prop where
  | written (hs : g.has start = false) (pos : Nat) :
      Runs g draws start pos (.ok (g.config.sentence [start.trim])) pos []
  | expanded {pos stop : Nat} {r : Except GenerationFault (List Text)} {log : List Event}
      (hs : g.has start = true)
      (h : g.Traced draws 0 [.nonterminal start.bareName] pos r stop log) :
      Runs g draws start pos (r.map g.config.sentence) stop log

/-- **Every sentence leaves a log, and a log is kept of nothing else.** -/
theorem returns_iff_exists_runs {start : Text} {r : Except GenerationFault Text} :
    g.Returns draws start pos r stop ↔ ∃ log, g.Runs draws start pos r stop log := by
  cases hs : g.has start with
  | false =>
    rw [returns_iff_of_not_has hs]
    constructor
    · rintro ⟨rfl, rfl⟩
      exact ⟨[], .written hs _⟩
    · rintro ⟨log, h⟩
      cases h with
      | written => exact ⟨rfl, rfl⟩
      | expanded hs' => rw [hs] at hs'; cases hs'
  | true =>
    rw [returns_iff_of_has hs]
    constructor
    · rintro ⟨r', h, rfl⟩
      obtain ⟨log, hlog⟩ := h.exists_traced
      exact ⟨log, .expanded hs hlog⟩
    · rintro ⟨log, h⟩
      cases h with
      | written hs' => rw [hs] at hs'; cases hs'
      | expanded _ h => exact ⟨_, h.expands, rfl⟩

end Sentences.Grammar
