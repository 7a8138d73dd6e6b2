import Sentences.Proofs.Lines
import Sentences.Proofs.Listing
import Sentences.Proofs.RuleText
import Sentences.Proofs.WriteLog
import Sentences.Proofs.WrittenLines

/-!
# A grammar written out as a rules file

The start symbol, then the names of the listing with their rule texts, a line each. Where the names
can stand in assignments and no rule text has a line feed, the file makes a grammar with the same
rules, listed in the same order.

* `Presentable`: the condition;
* `Presentable.ofContents_fileText`: what the lines of the file say;
* `Presentable.applyRulesFile_written`: what they make of the grammar without rules;
* `ofFile_fileText`: so the grammar is loaded again.
-/

namespace Sentences

namespace Grammar

/-! ## 1. The file -/

/-- The names of the listing with their rule texts. -/
def assignments (g : Grammar) : List Assignment :=
  g.names.filterMap fun name => (g.ruleText? name).map (Assignment.mk name)

/-- The grammar as a rules file. -/
def fileText (g : Grammar) : Text :=
  Text.ofLines (RulesFile.startLine g.start :: g.assignments.map Assignment.toLine)

/-- The grammars that can be written out: every name can stand in an assignment, no rule text has a
    line feed, and the start symbol has a rule. -/
structure Presentable (g : Grammar) : Prop where
  names : ∀ name ∈ g.names, name.Nameable
  texts : ∀ name ∈ g.names, ∀ text ∈ g.ruleText? name, '\n' ∉ text
  start : g.start ∈ g.names

/-- What the file says. -/
def written (g : Grammar) : RulesFile :=
  ⟨some g.start, g.assignments.map fun a => ⟨a.name, a.text.trim⟩⟩

variable {g : Grammar}

theorem mem_assignments {a : Assignment} (h : a ∈ g.assignments) :
    a.name ∈ g.names ∧ a.text ∈ g.ruleText? a.name := by
  obtain ⟨name, hname, ha⟩ := List.mem_filterMap.1 h
  obtain ⟨text, htext, rfl⟩ := Option.map_eq_some_iff.1 ha
  exact ⟨hname, htext⟩

/-! ## 2. What its lines say -/

namespace Presentable

theorem notMem_startLine (h : Presentable g) : '\n' ∉ RulesFile.startLine g.start := by
  have hname := (h.names g.start h.start).notMem_inBrackets
  have hword : '\n' ∉ RulesFile.startWord ++ " = ".toList := by decide +kernel
  unfold RulesFile.startLine
  rw [List.mem_append]
  exact not_or.2 ⟨hword, hname⟩

/-- The names can stand in assignments, and no text has a line feed. -/
theorem of_mem_assignments (h : Presentable g) {a : Assignment} (ha : a ∈ g.assignments) :
    a.name.Nameable ∧ '\n' ∉ a.text := by
  obtain ⟨hname, htext⟩ := mem_assignments ha
  exact ⟨h.names a.name hname, h.texts a.name hname a.text htext⟩

theorem lines_fileText (h : Presentable g) : g.fileText.lines =
    RulesFile.startLine g.start :: g.assignments.map Assignment.toLine := by
  refine Text.lines_ofLines fun l hl => ?_
  rcases List.mem_cons.1 hl with rfl | hl
  · exact h.notMem_startLine
  · obtain ⟨a, ha, rfl⟩ := List.mem_map.1 hl
    exact Assignment.notMem_toLine (h.of_mem_assignments ha).1 (h.of_mem_assignments ha).2

/-- Line by line the file is read as it was written. -/
theorem readAs_fileText (h : Presentable g) : ReadAs RulesFile.itemOf? g.fileText.lines
    (.start g.start :: g.assignments.map fun a => .rule ⟨a.name, a.text.trim⟩) := by
  have hstart := h.names g.start h.start
  have hrules : ReadAs RulesFile.itemOf? (g.assignments.map Assignment.toLine)
      (g.assignments.map fun a => .rule ⟨a.name, a.text.trim⟩) := by
    refine readAs_map fun a ha => ?_
    obtain ⟨hname, htext⟩ := h.of_mem_assignments ha
    exact Assignment.itemOf?_toLine hname htext
  rw [h.lines_fileText]
  exact readAs_cons_iff.2
    ⟨_, _, RulesFile.itemOf?_startLine hstart.1 hstart.isStartChar, hrules, rfl⟩

/-- **The file is a rules file, and says what was written.** -/
theorem ofContents_fileText (h : Presentable g) :
    RulesFile.ofContents (.ok g.fileText) = .ok g.written := by
  have hstarts : (g.assignments.map fun a => RulesFile.Item.rule ⟨a.name, a.text.trim⟩).filterMap
      RulesFile.Item.start? = [] := by
    rw [List.filterMap_map]
    exact List.filterMap_none g.assignments
  have hrules : (g.assignments.map fun a => RulesFile.Item.rule ⟨a.name, a.text.trim⟩).filterMap
      RulesFile.Item.rule? = g.written.rules := by
    rw [List.filterMap_map]
    exact congrFun List.filterMap_eq_map g.assignments
  have hitems : RulesFile.ofItems (.start g.start ::
      g.assignments.map fun a => .rule ⟨a.name, a.text.trim⟩) = g.written := by
    rw [← RulesFile.cons_ofItems]
    unfold RulesFile.ofItems
    rw [hstarts, hrules]
    rfl
  rw [RulesFile.ofContents_of_readAs h.readAs_fileText, hitems]

end Presentable

/-! ## 3. What they make -/

/-- The names with the rules of their texts are the entries of the listing. -/
theorem map_assignments (hnames : ∀ name ∈ g.names, name.bareName = name)
    (hrules : ∀ name rule, g.rules.get? name = some rule → rule.Faithful) :
    (g.assignments.map fun a => (a.name, Rule.ofText a.text)) = g.listed := by
  unfold assignments listed
  rw [List.map_filterMap]
  refine List.filterMap_congr fun name hname => ?_
  unfold ruleText? rule?
  rw [hnames name hname]
  cases hrule : g.rules.get? name with
  | none => rfl
  | some rule =>
    have hback := (hrules name rule hrule).ofText_toText
    show some (name, Rule.ofText rule.toText) = some (name, rule)
    rw [hback]

/-- A listing with its own names as the order of definition is the same listing. -/
theorem names_of_listed_order (g : Grammar) (config : Config) :
    names { g with order := g.names, config } = g.names := by
  have hstarter : (Starter.names.filter g.rules.contains).filter
      (fun name => !Starter.names.contains name) = [] := by
    refine List.filter_eq_nil_iff.2 fun name hname => ?_
    have hmem : name ∈ Starter.names := (List.mem_filter.1 hname).1
    simp [hmem]
  have hothers : g.names.filter (fun name => !Starter.names.contains name) =
      g.order.filter fun name => !Starter.names.contains name := by
    unfold names
    rw [List.filter_append, hstarter, List.nil_append, List.filter_filter]
    simp
  show Starter.names.filter g.rules.contains ++ g.names.filter _ = g.names
  rw [hothers]
  rfl

namespace Presentable

/-- **What the file says makes the same rules**, in the order of the listing. -/
theorem applyRulesFile_written (h : Presentable g) (hc : Consistent g)
    (hrules : ∀ name rule, g.rules.get? name = some rule → rule.Faithful) :
    empty.applyRulesFile g.written = { g with order := g.names, config := {} } := by
  have hbare : ∀ name ∈ g.names, name.bareName = name := fun name hn => (h.names name hn).bareName
  have hwrites : g.written.log.rules.map (fun w => (w.1, Rule.ofText w.2)) = g.listed := by
    rw [← map_assignments hbare hrules]
    show ((g.assignments.map _).map Assignment.write).map _ = _
    rw [List.map_map, List.map_map]
    refine List.map_congr_left fun a ha => ?_
    show (a.name.bareName, Rule.ofText a.text.trim) = (a.name, Rule.ofText a.text)
    rw [hbare a.name (mem_assignments ha).1, Rule.ofText_trim]
  have hnames : g.written.log.rules.map (·.1) = g.names := by
    rw [← hc.map_listed, ← hwrites, List.map_map]
    rfl
  have hnew : (g.names.filter fun name => !empty.rules.contains name).eraseDups = g.names := by
    have hall : g.names.filter (fun name => !empty.rules.contains name) = g.names :=
      List.filter_eq_self.2 fun _ _ => rfl
    rw [hall, Occurrences.eraseDups_of_nodup hc.nodup_names]
  rw [applyRulesFile_eq_record]
  refine eq_of_parts ?_ ?_ (hbare g.start h.start) rfl
  · show Table.empty.writeAll _ = g.rules
    rw [hwrites, Table.writeAll_eq_of_perm hc.listed_perm]
  · show [] ++ _ = g.names
    rw [hnames, hnew, List.nil_append]

end Presentable

/-! ## 4. Loading the file -/

/-- **A grammar that was made without JSON and can be written out as a rules file is loaded again
    from that file**: every name has the same rule, and the listing is the same line for line. -/
theorem ofFile_fileText (hg : g.ReachableWithoutJson) (h : Presentable g) :
    ∃ loaded, ofFile (.ok g.fileText) = .ok loaded ∧ loaded.rules = g.rules ∧
      loaded.names = g.names ∧ loaded.display = g.display ∧ loaded.start = g.start := by
  have hc : Consistent g := hg.made.consistent
  have happlied := h.applyRulesFile_written hc fun name rule => hg.made.faithful
  have hnames := names_of_listed_order g {}
  have hhas : has { g with order := g.names, config := {} } g.start = true := by
    show g.rules.contains g.start.bareName = true
    rw [(h.names g.start h.start).bareName]
    exact (hc.mem_names_iff g.start).1 h.start
  refine ⟨{ g with order := g.names, config := {} }, ?_, rfl, hnames, ?_, rfl⟩
  · unfold ofFile applyFile
    rw [h.ofContents_fileText]
    show checkStart (empty.applyRulesFile g.written) = _
    rw [happlied]
    exact checkStart_eq_ok_iff.2 ⟨hhas, rfl⟩
  · unfold display
    rw [hnames]
    rfl

/-- Rule texts that look like something else: blank ends and a blank rule, a bracket that is never
    closed, a directive, a comment, separators and a carriage return. -/
def deceptiveRules : List Assignment :=
  [⟨"x".toList, " ,a<b>c<d ".toList⟩, ⟨"@start".toList, " ".toList⟩,
   ⟨"noun".toList, "@start = <q>, # = ::= \r x,".toList⟩]

/-- The grammar with these rules. -/
def deceptive : Grammar :=
  (ofRules deceptiveRules).setStart "<x>".toList

theorem ofFile_fileText_deceptive :
    deceptive.ReachableWithoutJson ∧ deceptive.Presentable ∧
    deceptive.fileText = Text.ofLines
      ["@start = <x>".toList, "<noun> ::= @start = <q>, # = ::= \r x, ".toList,
        "<x> ::= , a<b>c<d".toList, "<@start> ::= ".toList] ∧
    ∃ loaded, ofFile (.ok deceptive.fileText) = .ok loaded ∧ loaded.rules = deceptive.rules ∧
      loaded.names = ["noun".toList, "x".toList, "@start".toList] ∧
      loaded.display = deceptive.display ∧ loaded.start = "x".toList := by
  have hreachable : deceptive.ReachableWithoutJson := by
    refine ⟨.rules deceptiveRules, [.setStart "<x>".toList], _, fun text he => ?_, rfl, rfl⟩
    cases he
  have hpresentable : deceptive.Presentable :=
    ⟨by decide +kernel, by decide +kernel, by decide +kernel⟩
  obtain ⟨loaded, hload, hrules, hnames, hdisplay, hstart⟩ :=
    ofFile_fileText hreachable hpresentable
  refine ⟨hreachable, hpresentable, by decide +kernel, loaded, hload, hrules, hnames.trans ?_,
    hdisplay, hstart.trans ?_⟩
  · decide +kernel
  · decide +kernel

end Grammar

end Sentences
