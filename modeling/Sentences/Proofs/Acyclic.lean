import Mathlib.Data.Set.Card
import Sentences.Proofs.Ending
import Sentences.Proofs.FailureChains

/-!
# Grammars without circular references

Where no name that the start leads to leads back to itself, each reference to a name with a rule
leads to fewer such names. So references run out after as many steps as there are names with a rule,
and a depth limit of that number is never reached.

* `definedFrom`: the names with a rule that a name leads to; `ncard_definedFrom_lt`: a reference
  leads to fewer of them;
* `AcyclicFrom.acc`: so references run out, `Chain.length_lt_ncard`: after a number of steps that
  is known;
* `acyclic_needs_no_limit`: generation ends without a limit, and a limit that leaves room for all
  these names is no limit; where it is reached some name leads back to itself.
-/

namespace Sentences.Grammar

/-- No name that the first name leads to leads back to itself by way of names with a rule. -/
def AcyclicFrom (g : Grammar) (root : Text) : Prop :=
  ∀ name, g.Reaches root name → ¬ Relation.TransGen g.Refers name name

/-- The names with a rule that a name leads to. -/
def definedFrom (g : Grammar) (root : Text) : Set Text :=
  { name | g.Reaches root name ∧ g.rules.contains name = true }

variable {g : Grammar} {root other : Text}

/-! ## 1. The names that are led to -/

theorem Refers.reaches (h : g.Refers root other) : g.Reaches root other :=
  .single h.1

/-- A name that leads to a name with a rule does so by way of names with a rule. -/
theorem Reaches.refers (h : g.Reaches root other) (hother : g.rules.contains other = true) :
    Relation.ReflTransGen g.Refers root other := by
  induction h with
  | refl => exact .refl
  | tail _ hrefers ih => exact (ih (contains_of_mem_references hrefers)).tail ⟨hrefers, hother⟩

theorem AcyclicFrom.of_reaches (h : g.AcyclicFrom root) (hr : g.Reaches root other) :
    g.AcyclicFrom other :=
  fun name hname => h name (hr.trans hname)

theorem definedFrom_subset_names (g : Grammar) (root : Text) :
    g.definedFrom root ⊆ g.rules.names.toFinset := by
  rintro name ⟨-, hname⟩
  exact List.mem_toFinset.2 ((g.rules.mem_names_iff name).2 hname)

theorem finite_definedFrom (g : Grammar) (root : Text) : (g.definedFrom root).Finite :=
  (Finset.finite_toSet _).subset (definedFrom_subset_names g root)

/-- There are no more names to lead to than names with a rule. -/
theorem ncard_definedFrom_le (g : Grammar) (root : Text) :
    (g.definedFrom root).ncard ≤ g.rules.names.length := by
  have hle := Set.ncard_le_ncard (definedFrom_subset_names g root) (Finset.finite_toSet _)
  rw [Set.ncard_coe_finset] at hle
  exact hle.trans (List.toFinset_card_le _)

/-- **A reference leads to fewer names**, if it cannot lead back: the name that refers is not one of
    them. -/
theorem ncard_definedFrom_lt (h : g.AcyclicFrom root) (hrefers : g.Refers root other) :
    (g.definedFrom other).ncard < (g.definedFrom root).ncard := by
  refine Set.ncard_lt_ncard ⟨?_, fun hsub => ?_⟩ (finite_definedFrom g root)
  · rintro name ⟨hreaches, hname⟩
    exact ⟨hrefers.reaches.trans hreaches, hname⟩
  · have hroot : g.rules.contains root = true := contains_of_mem_references hrefers.1
    obtain ⟨hback, -⟩ := hsub ⟨.refl, hroot⟩
    exact h root .refl (.head' hrefers (hback.refers hroot))

/-! ## 2. References that run out -/

/-- Where some height falls along every reference from a name that is led to, none of these names
    leads back to itself. -/
theorem acyclicFrom_of_height (height : Text → Nat)
    (h : ∀ name, g.Reaches root name → ∀ other, g.Refers name other → height other < height name) :
    g.AcyclicFrom root := by
  intro name hname hback
  have hfalls : ∀ other, Relation.TransGen g.Refers name other →
      g.Reaches root other ∧ height other < height name := by
    intro other hr
    induction hr with
    | single hstep => exact ⟨hname.trans hstep.reaches, h name hname _ hstep⟩
    | tail _ hstep ih =>
      obtain ⟨hreaches, hlt⟩ := ih
      exact ⟨hreaches.trans hstep.reaches, (h _ hreaches _ hstep).trans hlt⟩
  exact Nat.lt_irrefl _ (hfalls name hback).2

/-- **Where no name leads back to itself references run out**, by induction on the number of names
    that are left to lead to. -/
theorem AcyclicFrom.acc (h : g.AcyclicFrom root) : Acc (flip g.Refers) root := by
  generalize hn : (g.definedFrom root).ncard = n
  induction n using Nat.strongRecOn generalizing root with
  | ind n ih =>
    subst hn
    refine .intro root fun other hrefers => ?_
    exact ih _ (ncard_definedFrom_lt h hrefers) (h.of_reaches hrefers.reaches) rfl

/-- **Chains of references are shorter than the number of names**: the names of a chain are led to,
    and each reference leads to fewer. -/
theorem Chain.length_lt_ncard {via : List Text} {last : Text} (h : g.Chain root via last)
    (hacyclic : g.AcyclicFrom root) (hlast : g.rules.contains last = true) :
    via.length < (g.definedFrom root).ncard := by
  induction via generalizing root with
  | nil =>
    have hroot : last ∈ g.definedFrom root := ⟨h.reaches, hlast⟩
    exact (Set.ncard_pos (finite_definedFrom g root)).2 ⟨last, hroot⟩
  | cons next rest ih =>
    obtain ⟨hfirst, hrest⟩ := List.isChain_cons_cons.1 h.refers
    have hnext : g.Chain next rest last := ⟨hrest, h.ends⟩
    have hrefers : g.Refers root next := ⟨hfirst, hnext.contains hlast next List.mem_cons_self⟩
    have hshorter := ih hnext (hacyclic.of_reaches hrefers.reaches)
    exact Nat.lt_of_le_of_lt hshorter (ncard_definedFrom_lt hacyclic hrefers)

/-! ## 3. Generation -/

variable {draws : Draws} {start : Text} {pos stop : Nat} {r : Except GenerationFault Text}
  {limit : UInt64}

/-- Under a limit that leaves room for all names that the start leads to, only a name that leads
    back to itself can reach it. -/
theorem not_tooDeep_of_ncard_le (h : g.AcyclicFrom start.bareName)
    (hroom : (g.definedFrom start.bareName).ncard ≤ limit.toNat)
    (hr : (g.withLimit (some limit)).Returns draws start pos r stop) : ¬ TooDeep r := by
  rintro ⟨name, reported, rfl⟩
  obtain ⟨hlimit, hname, via, ⟨hrefers, hends⟩, hlength, -⟩ := hr.chain_of_tooDeep
  cases hlimit
  have hchain : g.Chain start.bareName via name := ⟨hrefers, hends⟩
  have hshort := hchain.length_lt_ncard h hname
  omega

/-- The limit and its absence make no difference where no result is a cut. -/
theorem returns_withLimit_iff_of_room (h : g.AcyclicFrom start.bareName)
    (hroom : (g.definedFrom start.bareName).ncard ≤ limit.toNat) :
    (g.withLimit (some limit)).Returns draws start pos r stop ↔
      (g.withLimit none).Returns draws start pos r stop := by
  constructor
  · intro hr
    exact hr.loosen (fun _ hnone => nomatch hnone) (not_tooDeep_of_ncard_le h hroom hr)
  · intro hr
    obtain ⟨need, -, hneed⟩ := hr.exists_need
    obtain ⟨henough, hshort⟩ := hneed limit
    rcases Nat.lt_or_ge limit.toNat need with hlt | hge
    · obtain ⟨name, cut, -, hcut⟩ := hshort hlt
      exact absurd ⟨name, limit, rfl⟩ (not_tooDeep_of_ncard_le h hroom hcut)
    · exact henough hge

/-- **A grammar without circular references needs no limit.** If no name that the start leads to
    leads back to itself, generation comes to an end without a limit along every script, and every
    limit that is at least the number of names with a rule that the start leads to is as good as
    none: the results and the draws are the same, and no result is a cut. In other words, a cut
    under such a limit shows that some name the start leads to leads back to itself. -/
theorem acyclic_needs_no_limit (g : Grammar) (start : Text) :
    (g.AcyclicFrom start.bareName →
      (∀ script pos, ∃ r stop, (g.withLimit none).Returns (.ofList script) start pos r stop) ∧
      ∀ limit : UInt64, (g.definedFrom start.bareName).ncard ≤ limit.toNat →
        ∀ draws pos r stop,
          ((g.withLimit (some limit)).Returns draws start pos r stop ↔
            (g.withLimit none).Returns draws start pos r stop) ∧
          ((g.withLimit (some limit)).Returns draws start pos r stop → ¬ TooDeep r)) ∧
    ∀ limit : UInt64, (g.definedFrom start.bareName).ncard ≤ limit.toNat → ∀ draws pos r stop,
      (g.withLimit (some limit)).Returns draws start pos r stop → TooDeep r →
        ∃ name, g.Reaches start.bareName name ∧ Relation.TransGen g.Refers name name := by
  refine ⟨fun h => ⟨fun script pos => ?_, fun limit hroom draws pos r stop =>
    ⟨returns_withLimit_iff_of_room h hroom, not_tooDeep_of_ncard_le h hroom⟩⟩,
    fun limit hroom draws pos r stop hr hdeep => ?_⟩
  · have hacc : Acc (flip (g.withLimit none).Refers) start.bareName := h.acc
    exact exists_returns_of_acc (Draws.settles_ofList script) (acc_inside_of_refers hacc 0) pos
  · refine Classical.byContradiction fun hnone => ?_
    have hacyclic : g.AcyclicFrom start.bareName :=
      fun name hname hback => hnone ⟨name, hname, hback⟩
    exact not_tooDeep_of_ncard_le hacyclic hroom hr hdeep

/-- Two names, one referring to the other and that one to text, and a name that refers to itself. -/
def descent : Grammar where
  rules := ((Table.empty.insert "s".toList ⟨[⟨[.nonterminal "a".toList]⟩]⟩).insert "a".toList
    ⟨[⟨[.terminal "x".toList]⟩]⟩).insert "b".toList ⟨[⟨[.nonterminal "b".toList]⟩]⟩
  order := ["s".toList, "a".toList, "b".toList]

theorem descent_reaches {name : Text} (h : descent.Reaches (Text.bareName "<s>".toList) name) :
    name ∈ ["s".toList, "a".toList] := by
  have hroot : Text.bareName "<s>".toList ∈ ["s".toList, "a".toList] := by decide +kernel
  have hclosed : ∀ n ∈ ["s".toList, "a".toList], ∀ other ∈ descent.references n,
      other ∈ ["s".toList, "a".toList] := by
    decide +kernel
  exact h.mem_of_closed hroot hclosed

/-- The first name leads to two names, so that two levels are as many as it needs, and one is too
    few. The last one leads back to itself, so that all three are too few. -/
theorem acyclic_needs_no_limit_descent :
    descent.AcyclicFrom (Text.bareName "<s>".toList) ∧
    (descent.definedFrom (Text.bareName "<s>".toList)).ncard ≤ (2 : UInt64).toNat ∧
    (∃ r stop, (descent.withLimit none).Returns (.ofList []) "<s>".toList 0 r stop) ∧
    (descent.withLimit (some 2)).Returns (.ofList []) "<s>".toList 0 (.ok "x ".toList) 2 ∧
    (descent.withLimit none).Returns (.ofList []) "<s>".toList 0 (.ok "x ".toList) 2 ∧
    (descent.withLimit (some 1)).Returns (.ofList []) "<s>".toList 0
      (.error (.tooDeep "a".toList 1)) 1 ∧
    (descent.definedFrom (Text.bareName "<b>".toList)).ncard ≤ (3 : UInt64).toNat ∧
    (descent.withLimit (some 3)).Returns (.ofList []) "<b>".toList 0
      (.error (.tooDeep "b".toList 3)) 3 ∧
    ∃ name, descent.Reaches (Text.bareName "<b>".toList) name ∧
      Relation.TransGen descent.Refers name name := by
  have hacyclic : descent.AcyclicFrom (Text.bareName "<s>".toList) := by
    have hfalls : ∀ name ∈ ["s".toList, "a".toList], ∀ other ∈ descent.references name,
        (if other = "s".toList then 1 else 0) < if name = "s".toList then 1 else 0 := by
      decide +kernel
    exact acyclicFrom_of_height (fun name => if name = "s".toList then 1 else 0)
      fun name hname other hrefers => hfalls name (descent_reaches hname) other hrefers.1
  have htwo : (descent.definedFrom (Text.bareName "<s>".toList)).ncard ≤ (2 : UInt64).toNat := by
    have hsub : descent.definedFrom (Text.bareName "<s>".toList) ⊆
        ["s".toList, "a".toList].toFinset :=
      fun name hname => List.mem_toFinset.2 (descent_reaches hname.1)
    have hle := Set.ncard_le_ncard hsub (Finset.finite_toSet _)
    rw [Set.ncard_coe_finset] at hle
    exact hle.trans (List.toFinset_card_le _)
  have hthree : (descent.definedFrom (Text.bareName "<b>".toList)).ncard ≤ (3 : UInt64).toNat := by
    have hnames : descent.rules.names.length ≤ (3 : UInt64).toNat := by decide +kernel
    exact (ncard_definedFrom_le descent _).trans hnames
  have hsentence : (descent.withLimit (some 2)).Returns (.ofList []) "<s>".toList 0
      (.ok "x ".toList) 2 := ⟨4, rfl⟩
  have hcut : (descent.withLimit (some 1)).Returns (.ofList []) "<s>".toList 0
      (.error (.tooDeep "a".toList 1)) 1 := ⟨4, rfl⟩
  have hloop : (descent.withLimit (some 3)).Returns (.ofList []) "<b>".toList 0
      (.error (.tooDeep "b".toList 3)) 3 := ⟨4, rfl⟩
  obtain ⟨hends, hroom⟩ := (acyclic_needs_no_limit descent "<s>".toList).1 hacyclic
  obtain ⟨hsame, -⟩ := hroom 2 htwo (.ofList []) 0 (.ok "x ".toList) 2
  obtain ⟨-, hcircular⟩ := acyclic_needs_no_limit descent "<b>".toList
  exact ⟨hacyclic, htwo, hends [] 0, hsentence, hsame.1 hsentence, hcut, hthree, hloop,
    hcircular 3 hthree _ _ _ _ hloop ⟨_, _, rfl⟩⟩

end Sentences.Grammar
