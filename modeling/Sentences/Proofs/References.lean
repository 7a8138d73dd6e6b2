import Mathlib.Data.List.Chain
import Mathlib.Logic.Relation
import Sentences.Generation
import Sentences.Proofs.BareNames
import Sentences.Proofs.Picking
import Sentences.Proofs.WriteLog

/-!
# What a sentence depends on

A rule refers to names, with a rule or without, and these lead on to others. A sentence depends on
the rules of the names that its start leads to, and on no other rules.

* `Grammar.references`, `Grammar.Reaches`: the names that a name refers to, and leads to;
  `Grammar.Refers`: the names with a rule among them;
* `Grammar.Chain`: the references one after another by which a name leads to another one;
* `Grammar.expand_mirrors`: grammars with the same rules for whatever a name leads to expand it
  alike, some levels deeper and some draws later too; `Grammar.generate_eq_of_agree`: and generate
  the same from it;
* `Grammar.generate_unreached`: so a rule, or a vocabulary, that the start does not lead to may be
  written without a difference.
-/

namespace Sentences

/-! ## 1. References -/

/-- The name that a symbol refers to; a terminal refers to none. -/
def Symbol.reference? : Symbol → Option Text
  | .terminal _ => none
  | .nonterminal name => some name

/-- The names that a rule refers to, alternative by alternative. -/
def Rule.references (r : Rule) : List Text :=
  r.productions.flatMap fun p => p.symbols.filterMap Symbol.reference?

/-- The failure with the limit in it changed. -/
def GenerationFault.mapLimit (f : UInt64 → UInt64) : GenerationFault → GenerationFault
  | .noAlternatives name => .noAlternatives name
  | .tooDeep name limit => .tooDeep name (f limit)

theorem GenerationFault.mapLimit_id : mapLimit id = id := by
  funext e
  cases e with
  | noAlternatives name => rfl
  | tooDeep name limit => rfl

theorem Symbol.reference?_eq_some_iff {s : Symbol} {name : Text} :
    s.reference? = some name ↔ s = .nonterminal name := by
  cases s with
  | terminal text => simp [reference?]
  | nonterminal other => simp [reference?]

theorem Rule.mem_references_iff {r : Rule} {name : Text} :
    name ∈ r.references ↔ ∃ p ∈ r.productions, .nonterminal name ∈ p.symbols := by
  simp only [references, List.mem_flatMap, List.mem_filterMap, Symbol.reference?_eq_some_iff,
    exists_eq_right]

namespace Grammar

/-- The names that the rule of a name refers to; none if it has no rule. -/
def references (g : Grammar) (name : Text) : List Text :=
  match g.rules.get? name with
  | none => []
  | some rule => rule.references

/-- The first name leads to the second: the names that a name leads to are itself and whatever
    names that it leads to refer to, whether these have a rule or not. -/
def Reaches (g : Grammar) : Text → Text → Prop :=
  Relation.ReflTransGen fun name other => other ∈ g.references name

/-- The rule of the first name refers to the second, which has a rule too. -/
def Refers (g : Grammar) (name other : Text) : Prop :=
  other ∈ g.references name ∧ g.rules.contains other = true

/-- References lead from the first name by way of the others, one after another, to the last. -/
structure Chain (g : Grammar) (root : Text) (via : List Text) (last : Text) : Prop where
  refers : (root :: via).IsChain fun name other => other ∈ g.references name
  ends : (root :: via).getLast (List.cons_ne_nil root via) = last

variable {g h : Grammar} {root : Text}

theorem mem_references {name other : Text} {rule : Rule} {p : Production}
    (hname : g.rules.get? name = some rule) (hp : p ∈ rule.productions)
    (hs : .nonterminal other ∈ p.symbols) : other ∈ g.references name := by
  unfold references
  rw [hname]
  exact Rule.mem_references_iff.2 ⟨p, hp, hs⟩

/-- What a name leads to lies in every list that has the name and is closed under references. -/
theorem Reaches.mem_of_closed {names : List Text} {name : Text} (hr : g.Reaches root name)
    (hroot : root ∈ names) (hclosed : ∀ n ∈ names, ∀ other ∈ g.references n, other ∈ names) :
    name ∈ names := by
  induction hr with
  | refl => exact hroot
  | tail _ hstep ih => exact hclosed _ ih _ hstep

/-- Only a name with a rule refers to anything. -/
theorem exists_rule_of_mem_references {name other : Text} (h : other ∈ g.references name) :
    ∃ rule, g.rules.get? name = some rule ∧ ∃ p ∈ rule.productions,
      .nonterminal other ∈ p.symbols := by
  unfold references at h
  cases hname : g.rules.get? name with
  | none =>
    rw [hname] at h
    cases h
  | some rule =>
    rw [hname] at h
    exact ⟨rule, rfl, Rule.mem_references_iff.1 h⟩

theorem contains_of_mem_references {name other : Text} (h : other ∈ g.references name) :
    g.rules.contains name = true := by
  obtain ⟨rule, hname, -⟩ := exists_rule_of_mem_references h
  exact Option.isSome_of_eq_some hname

namespace Chain

variable {via : List Text} {last : Text}

theorem nil (g : Grammar) (root : Text) : g.Chain root [] root :=
  ⟨.singleton root, rfl⟩

theorem snoc {other : Text} (h : g.Chain root via last) (hrefers : other ∈ g.references last) :
    g.Chain root (via ++ [other]) other := by
  have hlast := List.getLast?_eq_some_getLast (List.cons_ne_nil root via)
  rw [h.ends] at hlast
  refine ⟨?_, List.getLast_append_singleton (root :: via)⟩
  refine h.refers.append (.singleton other) fun name hname next hnext => ?_
  rw [hlast] at hname
  cases hname
  cases hnext
  exact hrefers

theorem reaches (h : g.Chain root via last) : g.Reaches root last :=
  List.relationReflTransGen_of_exists_isChain_cons via h.refers h.ends

/-- All names of a chain have a rule if the last one has. -/
theorem contains (h : g.Chain root via last) (hlast : g.rules.contains last = true) :
    ∀ name ∈ root :: via, g.rules.contains name = true :=
  h.refers.backwards_cons_induction (g.rules.contains · = true) via h.ends
    (fun _ _ hrefers _ => contains_of_mem_references hrefers) hlast

end Chain

/-! ## 2. Rules that are led to -/

/-- **Grammars with the same rules for the names that a name leads to expand these alike**, also
    some levels deeper and some draws later, if the limits and the draws are the same there. The
    induction is on the fuel: the symbols of an alternative are led to whenever its name is. -/
theorem expand_mirrors {draws ahead : Draws} {d k : Nat} {f : UInt64 → UInt64}
    (hdraws : ∀ pos, ahead (pos + d) = draws pos)
    (hlimit : ∀ depth, h.config.limitAt? (depth + k) = (g.config.limitAt? depth).map f)
    (hrules : ∀ name, g.Reaches root name → h.rules.get? name = g.rules.get? name) :
    ∀ (fuel depth : Nat) (name : Text), g.Reaches root name →
      Walk.Mirrors d (GenerationFault.mapLimit f) (g.expand draws fuel depth (.nonterminal name))
        (h.expand ahead fuel (depth + k) (.nonterminal name))
  | fuel, depth, name, hr => by
    have hsame := hrules name hr
    have hdepth := hlimit depth
    cases hname : g.rules.get? name with
    | none =>
      rw [expand_undefined hname, expand_undefined (hsame.trans hname)]
      exact .done _
    | some rule =>
      rw [hname] at hsame
      cases hreached : g.config.limitAt? depth with
      | some limit =>
        rw [hreached] at hdepth
        rw [expand_tooDeep hname hreached, expand_tooDeep hsame hdepth]
        exact .fail _
      | none =>
        rw [hreached] at hdepth
        by_cases hrule : rule.productions = []
        · rw [expand_noAlternatives hname hreached hrule, expand_noAlternatives hsame hdepth hrule]
          exact .fail _
        · have hpos : 0 < rule.productions.length := List.length_pos_iff.2 hrule
          cases fuel with
          | zero =>
            rw [expand_zero hname hreached hpos, expand_zero hsame hdepth hpos]
            exact .spent
          | succ fuel =>
            rw [expand_succ hname hreached hpos, expand_succ hsame hdepth hpos,
              Nat.add_right_comm]
            refine (Draws.choose_mirrors hdraws _ hpos _).andThen fun i => .concat fun s hs => ?_
            cases s with
            | terminal text =>
              rw [expand_terminal, expand_terminal]
              exact .done _
            | nonterminal other =>
              have href := mem_references hname (List.get_mem _ i) hs
              exact expand_mirrors hdraws hlimit hrules fuel (depth + 1) other (hr.tail href)

/-- With the same limit they expand alike at the same depth, with the same draws. -/
theorem expand_eq_of_agree (hconfig : h.config.maxDepth = g.config.maxDepth)
    (hrules : ∀ name, g.Reaches root name → h.rules.get? name = g.rules.get? name)
    (draws : Draws) (fuel depth : Nat) (name : Text) (hr : g.Reaches root name) :
    h.expand draws fuel depth (.nonterminal name) =
      g.expand draws fuel depth (.nonterminal name) := by
  have hlimit : ∀ depth,
      h.config.limitAt? (depth + 0) = (g.config.limitAt? depth).map id := by
    intro depth
    unfold Config.limitAt?
    rw [hconfig, Option.map_id]
    rfl
  have hmirrors := expand_mirrors (fun pos => (rfl : draws (pos + 0) = draws pos)) hlimit hrules
    fuel depth name hr
  rw [GenerationFault.mapLimit_id] at hmirrors
  exact hmirrors.eq

/-- **And they generate the same from it.** -/
theorem generate_eq_of_agree {start : Text} (hconfig : h.config = g.config)
    (hrules : ∀ name, g.Reaches start.bareName name → h.rules.get? name = g.rules.get? name)
    (draws : Draws) (fuel : Nat) : h.generate draws fuel start = g.generate draws fuel start := by
  have hhas : h.has start = g.has start := by
    unfold has Table.contains
    rw [hrules _ .refl]
  have hdepth : h.config.maxDepth = g.config.maxDepth := by rw [hconfig]
  unfold generate leaves
  rw [hhas, hconfig, expand_eq_of_agree hdepth hrules draws fuel 0 _ .refl]

/-- Rules that the start does not lead to may be written without a difference. -/
theorem generate_setRules_of_not_reaches {start : Text} {as : List Assignment}
    (has : ∀ a ∈ as, ¬ g.Reaches start.bareName a.name.bareName) (draws : Draws) (fuel : Nat) :
    (g.setRules as).generate draws fuel start = g.generate draws fuel start := by
  refine generate_eq_of_agree (config_setRules g as) (fun name hr => ?_) draws fuel
  exact get?_setRules_of_unwritten fun a ha he => has a ha (he ▸ hr)

/-- **A rule that the start does not lead to makes no difference**: with it or without it, every
    source of draws gives the same result and is left at the same place. Neither does a vocabulary
    if the start leads to none of the four categories. -/
theorem generate_unreached (g : Grammar) (start : Text) :
    (∀ a : Assignment, ¬ g.Reaches start.bareName a.name.bareName → ∀ draws fuel,
      (g.setRule a).generate draws fuel start = g.generate draws fuel start) ∧
    ∀ words : Vocabulary,
      (∀ name ∈ ["noun", "verb", "prep", "article"], ¬ g.Reaches start.bareName name.toList) →
        ∀ draws fuel,
          (g.setWords words).generate draws fuel start = g.generate draws fuel start := by
  refine ⟨fun a ha draws fuel => ?_, fun words hwords draws fuel => ?_⟩
  · have hone : ∀ b ∈ [a], ¬ g.Reaches start.bareName b.name.bareName := by
      intro b hb
      rw [List.mem_singleton.1 hb]
      exact ha
    exact generate_setRules_of_not_reaches hone draws fuel
  · refine generate_setRules_of_not_reaches (fun a ha => ?_) draws fuel
    have hcategory := Vocabulary.name_mem_categories ha
    obtain ⟨name, hname, he⟩ := List.mem_map.1 hcategory
    rw [Vocabulary.bareName_of_mem_categories hcategory, ← he]
    exact hwords name hname

/-- A start that leads to itself and to a name without a rule, and one more rule. -/
def secluded : Grammar :=
  ofRules [⟨"s".toList, "a<s>, <u>".toList⟩, ⟨"noun".toList, "x".toList⟩]

theorem not_reaches_of_secluded {name : Text} (hname : name ∉ ["s".toList, "u".toList]) :
    ¬ secluded.Reaches "s".toList name := by
  have hclosed : ∀ n ∈ ["s".toList, "u".toList], ∀ other ∈ secluded.references n,
      other ∈ ["s".toList, "u".toList] := by
    decide +kernel
  exact fun hr => hname (hr.mem_of_closed List.mem_cons_self hclosed)

theorem generate_unreached_secluded :
    ¬ secluded.Reaches (Text.bareName "<s>".toList) (Text.bareName " <noun>".toList) ∧
    (∀ draws fuel, (secluded.setRule ⟨" <noun>".toList, "<s>,".toList⟩).generate draws fuel
      "<s>".toList = secluded.generate draws fuel "<s>".toList) ∧
    (∀ name ∈ ["noun", "verb", "prep", "article"],
      ¬ secluded.Reaches (Text.bareName "<s>".toList) name.toList) ∧
    ∀ draws fuel, (secluded.setWords {}).generate draws fuel "<s>".toList =
      secluded.generate draws fuel "<s>".toList := by
  have hstart : Text.bareName "<s>".toList = "s".toList := by decide +kernel
  have hnoun :
      ¬ secluded.Reaches (Text.bareName "<s>".toList) (Text.bareName " <noun>".toList) := by
    rw [hstart]
    exact not_reaches_of_secluded (by decide +kernel)
  have hwords : ∀ name ∈ ["noun", "verb", "prep", "article"],
      ¬ secluded.Reaches (Text.bareName "<s>".toList) name.toList := by
    intro name hname
    rw [hstart]
    refine not_reaches_of_secluded ?_
    revert name
    decide +kernel
  obtain ⟨hrule, hvocabulary⟩ := generate_unreached secluded "<s>".toList
  exact ⟨hnoun, hrule _ hnoun, hwords, hvocabulary {} hwords⟩

/-- A rule for a name that is led to makes one, even if the name had none before. -/
example :
    ((secluded.generate (.ofList [0x8000000000000000]) 2 "s".toList 0).bind (·.1.toOption),
      ((secluded.setRule ⟨"u".toList, "z".toList⟩).generate (.ofList [0x8000000000000000]) 2
        "s".toList 0).bind (·.1.toOption)) = (some "<u> ".toList, some "z ".toList) := by
  decide +kernel

end Grammar

end Sentences
