import Sentences.Proofs.Expansion
import Sentences.Proofs.References
import Sentences.Proofs.Uniform

/-!
# When an expansion comes to an end

The call of a name leads to calls one level deeper: of the names with a rule that the name refers
to, as long as the depth is let through. Where these calls cannot go on without end, and all draws
settle every pick, the expansion comes to an end.

* `Inside`: one call is made inside another one;
* `exists_expands_of_acc`: an expansion whose calls cannot go on without end comes to an end;
* `acc_inside_of_limit`, `acc_inside_of_refers`: they cannot under a limit, nor where the references
  cannot.
-/

namespace Sentences.Grammar

/-- The first call, by depth and name, is made inside the second. -/
def Inside (g : Grammar) (inner outer : Nat × Text) : Prop :=
  inner.1 = outer.1 + 1 ∧ g.config.limitAt? outer.1 = none ∧ g.Refers outer.2 inner.2

variable {g : Grammar} {draws : Draws} {depth : Nat}

/-! ## 1. Expansions that end -/

/-- A list is expanded symbol by symbol. -/
theorem Expands.cons {s : Symbol} {rest : List Symbol} {pos mid stop : Nat} {leaves : List Text}
    {r : Except GenerationFault (List Text)} (h : g.Expands draws depth [s] pos (.ok leaves) mid)
    (later : g.Expands draws depth rest mid r stop) :
    g.Expands draws depth (s :: rest) pos (r.map (leaves ++ ·)) stop := by
  obtain ⟨fuel, hf⟩ := exists_concat_iff.2 later
  obtain ⟨more, hm⟩ := exists_expand_iff.2 h
  refine exists_concat_iff.1 ⟨fuel + more, Walk.concat_cons_eq_some_iff.2 (.inr ?_)⟩
  have head := expand_extends_add g draws more fuel depth s _ _ hm
  have tail := concat_expand_mono (Nat.le_add_right fuel more) rest _ _ hf
  rw [Nat.add_comm] at head
  exact ⟨leaves, mid, r, head, tail, rfl⟩

theorem Expands.cons_error {s : Symbol} {pos stop : Nat} {e : GenerationFault}
    (h : g.Expands draws depth [s] pos (.error e) stop) (rest : List Symbol) :
    g.Expands draws depth (s :: rest) pos (.error e) stop := by
  obtain ⟨fuel, hf⟩ := exists_expand_iff.2 h
  exact exists_concat_iff.1 ⟨fuel, Walk.concat_cons_eq_some_iff.2 (.inl ⟨e, hf, rfl⟩)⟩

/-- Symbols come to an end if those of them do that are names with a rule. -/
theorem exists_expands_of_calls {ss : List Symbol}
    (h : ∀ name, .nonterminal name ∈ ss → g.rules.contains name = true → ∀ pos, ∃ r stop,
      g.Expands draws depth [.nonterminal name] pos r stop) (pos : Nat) :
    ∃ r stop, g.Expands draws depth ss pos r stop := by
  induction ss generalizing pos with
  | nil => exact ⟨_, _, .nil depth pos⟩
  | cons s rest ih =>
    have hrest := ih fun name hname => h name (List.mem_cons_of_mem s hname)
    cases s with
    | terminal text =>
      obtain ⟨r, stop, hlater⟩ := hrest pos
      exact ⟨_, _, .terminal text hlater⟩
    | nonterminal name =>
      cases hname : g.rules.get? name with
      | none =>
        obtain ⟨r, stop, hlater⟩ := hrest pos
        exact ⟨_, _, .undefined hname hlater⟩
      | some rule =>
        have hcontains : g.rules.contains name = true := Option.isSome_of_eq_some hname
        obtain ⟨r, mid, hfirst⟩ := h name List.mem_cons_self hcontains pos
        cases r with
        | error e => exact ⟨_, _, hfirst.cons_error rest⟩
        | ok leaves =>
          obtain ⟨r, stop, hlater⟩ := hrest mid
          exact ⟨_, _, hfirst.cons hlater⟩

/-- **A call that cannot lead to calls without end comes to an end**, by induction on the calls that
    it can lead to. -/
theorem exists_expands_of_acc (hd : draws.Settles) {call : Nat × Text} (h : Acc g.Inside call) :
    ∀ pos, ∃ r stop, g.Expands draws call.1 [.nonterminal call.2] pos r stop := by
  induction h with
  | intro call _ ih =>
    obtain ⟨depth, name⟩ := call
    intro pos
    cases hname : g.rules.get? name with
    | none => exact ⟨_, _, .undefined hname (.nil depth pos)⟩
    | some rule =>
      cases hlimit : g.config.limitAt? depth with
      | some limit => exact ⟨_, _, .tooDeep pos [] hname hlimit⟩
      | none =>
        by_cases hrule : rule.productions = []
        · exact ⟨_, _, .noAlternatives pos [] hname hlimit hrule⟩
        · have hpos : 0 < rule.productions.length := List.length_pos_iff.2 hrule
          obtain ⟨i, mid, hpick⟩ := hd _ hpos pos
          have hi : i < rule.productions.length := hpick.lt hpos
          have hp : rule.productions[i]? = some rule.productions[i] := List.getElem?_eq_getElem hi
          have hcalls : ∀ other, .nonterminal other ∈ rule.productions[i].symbols →
              g.rules.contains other = true → ∀ pos, ∃ r stop,
                g.Expands draws (depth + 1) [.nonterminal other] pos r stop := by
            intro other hs hother
            have hrefers := mem_references hname (List.getElem_mem hi) hs
            exact ih (depth + 1, other) ⟨rfl, hlimit, hrefers, hother⟩
          obtain ⟨r, stop, hinner⟩ := exists_expands_of_calls hcalls mid
          cases r with
          | error e => exact ⟨_, _, .failed [] hname hlimit hpick hp hinner⟩
          | ok leaves => exact ⟨_, _, .node hname hlimit hpick hp hinner (.nil depth stop)⟩

/-- And so does a start whose name cannot lead to calls without end. -/
theorem exists_returns_of_acc (hd : draws.Settles) {start : Text}
    (h : Acc g.Inside (0, start.bareName)) (pos : Nat) :
    ∃ r stop, g.Returns draws start pos r stop := by
  cases hs : g.has start with
  | false => exact ⟨_, _, (returns_iff_of_not_has hs).2 ⟨rfl, rfl⟩⟩
  | true =>
    obtain ⟨r, stop, hexpands⟩ := exists_expands_of_acc hd h pos
    exact ⟨_, _, (returns_iff_of_has hs).2 ⟨r, hexpands, rfl⟩⟩

/-! ## 2. Calls that cannot go on without end -/

/-- Under a limit the depths run out. -/
theorem acc_inside_of_limit {limit : UInt64} (hlimit : g.config.maxDepth = some limit)
    (call : Nat × Text) : Acc g.Inside call := by
  refine Subrelation.accessible (r := InvImage (· < ·) fun call => limit.toNat - call.1) ?_
    ((measure fun call : Nat × Text => limit.toNat - call.1).wf.apply call)
  intro inner outer ⟨hdepth, hnone, _⟩
  have hlt := limitAt?_eq_none_iff.1 hnone limit hlimit
  show limit.toNat - inner.1 < limit.toNat - outer.1
  omega

/-- Where references to names with a rule run out, calls do. -/
theorem acc_inside_of_refers {name : Text} (h : Acc (flip g.Refers) name) (depth : Nat) :
    Acc g.Inside (depth, name) := by
  induction h generalizing depth with
  | intro name _ ih =>
    refine .intro _ fun inner ⟨_, _, hrefers⟩ => ?_
    exact ih inner.2 hrefers inner.1

end Sentences.Grammar
