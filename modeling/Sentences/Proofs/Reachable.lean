import Sentences.Grammar.Origin
import Sentences.Proofs.Occurrences
import Sentences.Proofs.Writes

/-!
# What every way to a grammar comes down to

However a grammar begins and is edited, it is made from the grammar without rules, or from what a
JSON text holds, by writing one rule, the start symbol or the configuration at a time (`Made`). What
these three keep holds of every grammar.

* `Reachable.made`, `ReachableWithoutJson.made`: reachable grammars are made so;
* `Consistent`: the order of definition has no name twice and exactly the names with a rule;
* `Made.consistent`: it holds of every grammar, and `Consistent.repaired`: so there is nothing in
  its order to repair.
-/

namespace Sentences.Grammar

/-! ## 1. One write at a time -/

/-- Grammars made by single writes; `json` says whether a JSON text may be the beginning. -/
inductive Made (json : Prop) : Grammar → Prop where
  | empty : Made json .empty
  | ofJson {g : Grammar} {text : Text} (hj : json) (h : Grammar.ofJson text = .ok g) : Made json g
  | setRule {g : Grammar} (h : Made json g) (a : Assignment) : Made json (g.setRule a)
  | setStart {g : Grammar} (h : Made json g) (spelling : Text) : Made json (g.setStart spelling)
  | setConfig {g : Grammar} (h : Made json g) (config : Config) : Made json (g.setConfig config)

variable {json : Prop} {g : Grammar}

theorem Made.setRules (h : Made json g) (as : List Assignment) : Made json (g.setRules as) := by
  unfold Grammar.setRules
  induction as generalizing g with
  | nil => exact h
  | cons a rest ih => exact ih (h.setRule a)

theorem Made.applyRulesFile (h : Made json g) (file : RulesFile) :
    Made json (g.applyRulesFile file) := by
  unfold Grammar.applyRulesFile
  split
  · exact h.setRules file.rules
  · exact (h.setRules file.rules).setStart _

/-- A file that applies makes single writes. -/
theorem Made.applyFile {g' : Grammar} {contents : FileContents} (h : Made json g)
    (hf : g.applyFile contents = .ok g') : Made json g' := by
  unfold Grammar.applyFile at hf
  cases hc : RulesFile.ofContents contents with
  | error cause =>
    rw [hc] at hf
    cases hf
  | ok file =>
    rw [hc] at hf
    cases hf
    exact h.applyRulesFile file

theorem Made.apply (h : Made json g) (e : Edit) : Made json (e.apply g) := by
  cases e with
  | setRule a => exact h.setRule a
  | setRules as => exact h.setRules as
  | setWords words => exact h.setRules words.assignments
  | setStart spelling => exact h.setStart spelling
  | setConfig config => exact h.setConfig config
  | applyFile contents =>
    unfold Edit.apply Edit.attempt
    split
    · rename_i hf
      exact h.applyFile hf
    · exact h

theorem Made.edited (h : Made json g) (edits : List Edit) : Made json (g.edited edits) := by
  unfold Grammar.edited
  induction edits generalizing g with
  | nil => exact h
  | cons e rest ih => exact ih (h.apply e)

/-- The check of the start symbol lets a grammar through as it is. -/
theorem applyFile_of_ofFile {contents : FileContents} (h : Grammar.ofFile contents = .ok g) :
    Grammar.empty.applyFile contents = .ok g := by
  unfold ofFile at h
  cases hf : Grammar.empty.applyFile contents with
  | error cause =>
    rw [hf] at h
    cases h
  | ok first =>
    rw [hf] at h
    have hcheck : first.checkStart = .ok g := h
    rw [(checkStart_eq_ok_iff.1 hcheck).2]

theorem made_of_origin {origin : Origin} (h : origin.grammar = .ok g)
    (hj : ∀ text, origin = .json text → json) : Made json g := by
  cases origin with
  | empty =>
    cases h
    exact .empty
  | configured config =>
    cases h
    exact Made.empty.setConfig config
  | starter words =>
    cases h
    exact (Made.empty.setRules Starter.shape).setRules words.assignments
  | rules as =>
    cases h
    exact Made.empty.setRules as
  | file contents =>
    exact Made.empty.applyFile (applyFile_of_ofFile h)
  | json text =>
    have hread : (Grammar.ofJson text).mapError Failure.json = .ok g := h
    cases hf : Grammar.ofJson text with
    | error cause =>
      rw [hf] at hread
      cases hread
    | ok first =>
      rw [hf] at hread
      cases hread
      exact .ofJson (hj text rfl) hf

theorem Reachable.made (h : g.Reachable) : Made True g := by
  obtain ⟨origin, edits, first, hfirst, rfl⟩ := h
  exact (made_of_origin hfirst fun _ _ => trivial).edited edits

theorem ReachableWithoutJson.made (h : g.ReachableWithoutJson) : Made False g := by
  obtain ⟨origin, edits, first, hj, hfirst, rfl⟩ := h
  exact (made_of_origin hfirst hj).edited edits

/-! ## 2. The order of definition -/

/-- The order of definition has no name twice, and exactly the names with a rule. -/
structure Consistent (g : Grammar) : Prop where
  nodup : g.order.Nodup
  mem_iff : ∀ name, name ∈ g.order ↔ g.rules.contains name = true

theorem consistent_empty : Consistent .empty :=
  ⟨List.nodup_nil, fun _ => by simp [empty, Table.contains]⟩

theorem Consistent.setRule (h : Consistent g) (a : Assignment) : Consistent (g.setRule a) := by
  unfold Grammar.setRule
  by_cases hc : g.rules.contains a.name.bareName = true
  · refine ⟨by simpa [hc] using h.nodup, fun name => ?_⟩
    by_cases hn : name = a.name.bareName
    · subst hn
      simp [hc, h.mem_iff]
    · simp [hc, hn, h.mem_iff]
  · have hnew : a.name.bareName ∉ g.order := fun hm => hc ((h.mem_iff _).1 hm)
    refine ⟨?_, fun name => ?_⟩
    · simp only [hc, Bool.false_eq_true, if_false]
      refine List.nodup_append.2 ⟨h.nodup, by simp, ?_⟩
      intro x hx y hy hxy
      rw [List.mem_singleton.1 hy] at hxy
      exact hnew (hxy ▸ hx)
    · simp [hc, h.mem_iff, or_comm]

/-- The repaired order keeps the first occurrences of names with a rule and adds the rest. -/
theorem consistent_repaired (g : Grammar) : Consistent g.repaired := by
  unfold repaired repairedOrder
  refine ⟨?_, fun name => ?_⟩
  · refine List.nodup_append.2 ⟨Occurrences.nodup_eraseDups _, ?_, ?_⟩
    · exact g.rules.nodup_names.filter _
    · intro x hx y hy hxy
      subst hxy
      have hnew := (List.mem_filter.1 hy).2
      rw [List.contains_iff_mem.2 hx] at hnew
      cases hnew
  · rw [List.mem_append, List.mem_eraseDups, List.mem_filter, List.mem_filter, Table.mem_names_iff]
    by_cases hn : name ∈ g.order
    · simp [hn]
    · simp [hn]

/-- **Every grammar has exactly the names with a rule in its order, each once.** -/
theorem Made.consistent (h : Made json g) : Consistent g := by
  induction h with
  | empty => exact consistent_empty
  | @ofJson g text _ h =>
    unfold Grammar.ofJson at h
    cases hr : reader.readAll text with
    | error cause =>
      rw [hr] at h
      cases h
    | ok written =>
      rw [hr] at h
      cases h
      exact consistent_repaired written
  | setRule _ a ih => exact ih.setRule a
  | setStart _ _ ih => exact ⟨ih.nodup, ih.mem_iff⟩
  | setConfig _ _ ih => exact ⟨ih.nodup, ih.mem_iff⟩

/-- Where the order is consistent there is nothing to repair. -/
theorem Consistent.repaired (h : Consistent g) : g.repaired = g := by
  have hknown : g.order.filter g.rules.contains = g.order :=
    List.filter_eq_self.2 fun name hn => (h.mem_iff name).1 hn
  have hrest : g.rules.names.filter (fun name => !g.order.contains name) = [] := by
    refine List.filter_eq_nil_iff.2 fun name hn => ?_
    have hm := (h.mem_iff name).2 ((g.rules.mem_names_iff name).1 hn)
    simp [hm]
  have horder : repairedOrder g.rules g.order = g.order := by
    simp only [repairedOrder, hknown, Occurrences.eraseDups_of_nodup h.nodup, hrest,
      List.append_nil]
  rw [Grammar.repaired, horder]

end Sentences.Grammar
