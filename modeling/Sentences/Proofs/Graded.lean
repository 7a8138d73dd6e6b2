import Sentences.Proofs.Derivation
import Sentences.Proofs.Ending
import Sentences.Proofs.Trace

/-!
# Grammars whose references lead downwards

A grammar is graded when its names have heights that fall along every reference to a name with a
rule. Trees then nest no deeper than the heights allow, and an expansion comes to an end along all
draws that settle every pick.

* `Graded`, `Below`: the heights, and symbols all of whose names are below one;
* `Tree.nesting_le`: the height of its name bounds the nesting of a tree;
* `Graded.acc`: references run out, `Graded.handsOn_roomy`: and a call that has room for the height
  of its name leaves room for the calls inside it;
* `Graded.exists_expands`: so with room for the heights, symbols come to their leaves, unless to a
  name without alternatives.
-/

namespace Sentences.Grammar

/-! ## 1. Heights -/

/-- The names with a rule that symbols refer to are below a height. -/
def Below (g : Grammar) (height : Text → Nat) (bound : Nat) (ss : List Symbol) : Prop :=
  ∀ name rule, .nonterminal name ∈ ss → g.rules.get? name = some rule → height name < bound

/-- Every alternative of a rule is below the name of the rule. -/
def Graded (g : Grammar) (height : Text → Nat) : Prop :=
  ∀ name rule p, g.rules.get? name = some rule → p ∈ rule.productions →
    g.Below height (height name) p.symbols

variable {g : Grammar} {height : Text → Nat} {bound : Nat}

theorem Below.tail {s : Symbol} {rest : List Symbol} (h : g.Below height bound (s :: rest)) :
    g.Below height bound rest :=
  fun name rule hm hr => h name rule (List.mem_cons_of_mem s hm) hr

theorem Below.head {s : Symbol} {rest : List Symbol} (h : g.Below height bound (s :: rest)) :
    g.Below height bound [s] := by
  intro name rule hm hr
  rw [← List.mem_singleton.1 hm] at h
  exact h name rule List.mem_cons_self hr

/-! ## 2. Nesting -/

mutual

/-- **A tree nests no deeper than its symbol is high.** -/
theorem Tree.nesting_le (hg : g.Graded height) : ∀ {s : Symbol} (t : g.Tree s) (bound : Nat),
    g.Below height bound [s] → t.nesting ≤ bound
  | _, .terminal _, _, _ => Nat.zero_le _
  | _, .undefined _ _, _, _ => Nat.zero_le _
  | _, @Tree.node _ name rule _ hname hp children, bound, h => by
    have hbelow : height name < bound := h name rule List.mem_cons_self hname
    have hchildren := children.nesting_le hg (height name) (hg name rule _ hname hp)
    exact Nat.succ_le_of_lt (Nat.lt_of_le_of_lt hchildren hbelow)

theorem Forest.nesting_le (hg : g.Graded height) : ∀ {ss : List Symbol} (f : g.Forest ss)
    (bound : Nat), g.Below height bound ss → f.nesting ≤ bound
  | _, .nil, _, _ => Nat.zero_le _
  | _, .cons first others, bound, h =>
    Nat.max_le.2 ⟨first.nesting_le hg bound h.head, others.nesting_le hg bound h.tail⟩

end

/-! ## 3. Expansion -/

variable {draws : Draws}

/-- What an expansion comes to: leaves, or a name whose rule has no alternatives. -/
def Complete (g : Grammar) (r : Except GenerationFault (List Text)) : Prop :=
  (∃ leaves, r = .ok leaves) ∨
    ∃ name rule, g.rules.get? name = some rule ∧ rule.productions = [] ∧
      r = .error (.noAlternatives name)

/-- Along references heights fall, so these run out. -/
theorem Graded.acc (hg : g.Graded height) (name : Text) : Acc (flip g.Refers) name := by
  refine Subrelation.accessible (r := InvImage (· < ·) height) ?_ ((measure height).wf.apply name)
  intro other name ⟨hmem, hother⟩
  obtain ⟨rule, hname, p, hp, hs⟩ := exists_rule_of_mem_references hmem
  obtain ⟨_, hrule⟩ := Option.isSome_iff_exists.1 hother
  exact hg name rule p hname hp other _ hs hrule

/-- The symbol of a call at a depth, if it is a name with a rule, has room for its height. -/
def Roomy (g : Grammar) (height : Text → Nat) (depth : Nat) (s : Symbol) : Prop :=
  ∀ name rule, s = .nonterminal name → g.rules.get? name = some rule →
    g.Admits depth (height name + 1)

theorem Graded.handsOn_roomy (hg : g.Graded height) : g.HandsOn (g.Roomy height) := by
  intro depth name rule p s hroomy hname _ hp hs other otherRule hother hrule
  obtain ⟨-, hdeep⟩ := admits_succ_iff.1 (hroomy name rule rfl hname)
  exact hdeep.mono (hg name rule p hname hp other otherRule (hother ▸ hs) hrule)

theorem Below.roomy {depth : Nat} {ss : List Symbol} (h : g.Below height bound ss)
    (hroom : g.Admits depth bound) : ∀ s ∈ ss, g.Roomy height depth s := by
  intro s hs name rule hname hrule
  exact hroom.mono (h name rule (hname ▸ hs) hrule)

/-- **Where there is room for their heights, symbols come to their leaves**, or to a name without
    alternatives: no call that is made there is too deep. -/
theorem Graded.exists_expands (hg : g.Graded height) (hd : draws.Settles) (bound depth : Nat)
    (ss : List Symbol) (pos : Nat) (h : g.Below height bound ss) (hroom : g.Admits depth bound) :
    ∃ r stop, g.Expands draws depth ss pos r stop ∧ g.Complete r := by
  obtain ⟨r, stop, hexpands⟩ := exists_expands_of_calls (fun name _ _ =>
    exists_expands_of_acc hd (acc_inside_of_refers (hg.acc name) depth)) pos
  obtain ⟨log, hlog⟩ := hexpands.exists_traced
  refine ⟨r, stop, hexpands, ?_⟩
  cases r with
  | ok leaves => exact .inl ⟨leaves, rfl⟩
  | error e =>
    obtain ⟨d, name, hcall, hfails⟩ := hlog.exists_failsAt rfl
    have hroomy : g.Roomy height d (.nonterminal name) :=
      hlog.forall_fits hg.handsOn_roomy (h.roomy hroom) _ hcall
    cases hfails with
    | tooDeep hname hlimit =>
      obtain ⟨hnone, -⟩ := admits_succ_iff.1 (hroomy name _ rfl hname)
      rw [hnone] at hlimit
      cases hlimit
    | noAlternatives hname _ hrule => exact .inr ⟨name, _, hname, hrule, rfl⟩

end Sentences.Grammar
