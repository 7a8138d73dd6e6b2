import Mathlib.Data.List.Nodup
import Sentences.Proofs.Reachable

/-!
# The listing of a grammar

A listing takes names from two places: from the names of the starter grammar, those that have a
rule, and from the order of definition all others. Where the order has exactly the names with a
rule, each once, so has the listing.

* `Consistent.nodup_names`, `Consistent.mem_names_iff`: every name with a rule is listed once, and
  no other name is;
* `Consistent.names_eq`: the listing is the order with the names of the starter grammar in front;
* `entryLine`, `display_eq`: a line for every name and its alternatives, and nothing else;
* `Consistent.listed_perm`: so every entry of the table has a line;
* `Reachable.listing`: all of this holds of every reachable grammar.
-/

namespace Sentences

/-- The names of the starter grammar are ten different ones. -/
theorem Starter.nodup_names : Starter.names.Nodup := by decide

namespace Grammar

variable {g : Grammar}

/-! ## 1. Names -/

/-- The names of the starter grammar are taken from either place, never from both. -/
theorem Consistent.names_eq (h : Consistent g) :
    g.names = (Starter.names.filter fun name => g.order.contains name) ++
      g.order.filter fun name => !Starter.names.contains name := by
  have hsame : ∀ name ∈ Starter.names, g.rules.contains name = g.order.contains name := by
    intro name _
    rw [Bool.eq_iff_iff, List.contains_iff_mem]
    exact (h.mem_iff name).symm
  unfold names
  rw [List.filter_congr hsame]

theorem Consistent.nodup_names (h : Consistent g) : g.names.Nodup := by
  refine List.nodup_append.2 ⟨Starter.nodup_names.filter _, h.nodup.filter _, ?_⟩
  intro name hfirst other hsecond heq
  have hstarter : name ∈ Starter.names := (List.mem_filter.1 hfirst).1
  have hother := (List.mem_filter.1 hsecond).2
  rw [← heq, List.contains_iff_mem.2 hstarter] at hother
  cases hother

theorem Consistent.mem_names_iff (h : Consistent g) (name : Text) :
    name ∈ g.names ↔ g.rules.contains name = true := by
  unfold names
  rw [List.mem_append, List.mem_filter, List.mem_filter, h.mem_iff]
  by_cases hs : name ∈ Starter.names
  · simp [hs]
  · simp [hs]

/-! ## 2. Lines -/

/-- The line of a listing for an entry: its name in brackets and a colon, then, behind a space, its
    alternatives with a bar between two of them, if it has any. -/
def entryLine (e : Text × Rule) : Text :=
  let alternatives := e.2.productions.map Production.display
  e.1.inBrackets ++ ':' ::
    (if e.2.productions = [] then [] else ' ' :: " | ".toList.intercalate alternatives) ++ ['\n']

/-- The entries of the table in the order of the listing. -/
def listed (g : Grammar) : List (Text × Rule) :=
  g.names.filterMap fun name => (g.rules.get? name).map (Prod.mk name)

theorem mem_listed_iff (g : Grammar) (e : Text × Rule) :
    e ∈ g.listed ↔ e.1 ∈ g.names ∧ e ∈ g.rules.entries := by
  unfold listed
  rw [List.mem_filterMap, ← Table.get?_eq_some_iff]
  constructor
  · intro ⟨name, hname, he⟩
    obtain ⟨rule, hrule, rfl⟩ := Option.map_eq_some_iff.1 he
    exact ⟨hname, hrule⟩
  · intro ⟨hname, hrule⟩
    exact ⟨e.1, hname, by rw [hrule]; rfl⟩

theorem displayLine_of_get? {name : Text} {rule : Rule} (h : g.rules.get? name = some rule) :
    g.displayLine name = entryLine (name, rule) := by
  unfold displayLine entryLine
  rw [h]
  dsimp only
  rw [Rule.display_eq]

/-- A name without a rule has no line, so only entries make lines. -/
theorem display_eq (g : Grammar) : g.display = g.listed.flatMap entryLine := by
  unfold display listed
  induction g.names with
  | nil => rfl
  | cons name rest ih =>
    rw [List.flatMap_cons, ih]
    cases hrule : g.rules.get? name with
    | none => simp [displayLine, hrule]
    | some rule => simp [displayLine_of_get? hrule, hrule]

/-- Every listed name has an entry. -/
theorem Consistent.map_listed (h : Consistent g) : g.listed.map (·.1) = g.names := by
  have hsome : ∀ name ∈ g.names,
      ((g.rules.get? name).map (Prod.mk name)).map (·.1) = some name := by
    intro name hname
    obtain ⟨rule, hrule⟩ := Option.isSome_iff_exists.1 ((h.mem_names_iff name).1 hname)
    rw [hrule]
    rfl
  unfold listed
  rw [List.map_filterMap, List.filterMap_congr hsome, List.filterMap_some]

/-- **Every entry of the table is listed once.** -/
theorem Consistent.listed_perm (h : Consistent g) : g.listed.Perm g.rules.entries := by
  have hnodup : (g.listed.map (·.1)).Nodup := by
    rw [h.map_listed]
    exact h.nodup_names
  have hentries : (g.rules.entries.map (·.1)).Nodup := g.rules.nodup_names
  refine (List.perm_ext_iff_of_nodup (List.Nodup.of_map _ hnodup) (List.Nodup.of_map _ hentries)).2
    fun e => ?_
  rw [mem_listed_iff, h.mem_names_iff, and_iff_right_iff_imp]
  intro he
  unfold Table.contains
  rw [(Table.get?_eq_some_iff g.rules e.1 e.2).2 he]
  rfl

/-! ## 3. Reachable grammars -/

/-- **However a grammar came about, its order of definition has exactly the names with a rule, each
    once.** So the listing has them too, those of the starter grammar first, and displays every
    entry of the table once, in its order. -/
theorem Reachable.listing (h : g.Reachable) :
    (g.order.Nodup ∧ ∀ name, name ∈ g.order ↔ g.rules.contains name = true) ∧
    (g.names.Nodup ∧ ∀ name, name ∈ g.names ↔ g.rules.contains name = true) ∧
    (g.names = (Starter.names.filter fun name => g.order.contains name) ++
      g.order.filter fun name => !Starter.names.contains name) ∧
    g.listed.map (·.1) = g.names ∧ g.listed.Perm g.rules.entries ∧
    g.display = g.listed.flatMap entryLine := by
  have hc : Consistent g := h.made.consistent
  exact ⟨⟨hc.nodup, hc.mem_iff⟩, ⟨hc.nodup_names, hc.mem_names_iff⟩, hc.names_eq, hc.map_listed,
    hc.listed_perm, g.display_eq⟩

/-- A JSON text whose order of definition repeats a name, has one without a rule and lacks two. The
    rules have two alternatives, none, and one that is empty. -/
def disorderly : Text :=
  ("\x7b\"rules\":\x7b\"b\":\x7b\"productions\":[" ++
    "\x7b\"symbols\":[\x7b\"NonTerminal\":\"a\"\x7d,\x7b\"Terminal\":\"y\"\x7d]\x7d," ++
    "\x7b\"symbols\":[\x7b\"Terminal\":\"x\"\x7d]\x7d]\x7d,\"verb\":\x7b\"productions\":[]\x7d," ++
    "\"a\":\x7b\"productions\":[\x7b\"symbols\":[]\x7d]\x7d\x7d," ++
    "\"order\":[\"b\",\"?\",\"b\"],\"start_symbol\":\"b\"\x7d").toList

/-- What the text holds: the order has been repaired. -/
def orderly : Grammar where
  rules := tableOf
    [("b".toList, ⟨[⟨[.nonterminal "a".toList, .terminal "y".toList]⟩, ⟨[.terminal "x".toList]⟩]⟩),
      ("verb".toList, ⟨[]⟩), ("a".toList, ⟨[⟨[]⟩]⟩)]
  order := ["b".toList, "a".toList, "verb".toList]
  start := "b".toList

theorem listing_orderly :
    Grammar.ofJson disorderly = .ok orderly ∧ orderly.Reachable ∧
      orderly.names = ["verb".toList, "b".toList, "a".toList] ∧
      orderly.listed.Perm orderly.rules.entries ∧
      orderly.display = "<verb>:\n<b>: <a>+y | x\n<a>: \n".toList := by
  have hread : Grammar.ofJson disorderly = .ok orderly := by decide +kernel
  have hreachable : orderly.Reachable := by
    refine ⟨.json disorderly, [], orderly, ?_, rfl⟩
    show (Grammar.ofJson disorderly).mapError Failure.json = .ok orderly
    rw [hread]
    rfl
  obtain ⟨-, -, hnames, -, hperm, hdisplay⟩ := Reachable.listing hreachable
  refine ⟨hread, hreachable, ?_, hperm, ?_⟩
  · rw [hnames]
    decide +kernel
  · rw [hdisplay]
    decide +kernel

end Grammar

end Sentences
