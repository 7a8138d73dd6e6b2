import Sentences.CommandLine.Run
import Sentences.Proofs.AssignmentForm
import Sentences.Proofs.FileLines
import Sentences.Proofs.WriteLog

/-!
# Which layer decides when a grammar is loaded

The rule of a name comes from the last layer that says anything about it: the `--rule` options, then
the word options, then the rules file, then the starter grammar. The start symbol is the one asked
for, else the file's, else `start`.

* `load_of_readAs`: what is loaded when everything can be read, up to the check of the start;
* `get?_layered`, `start_layered`: the layers, read from the last one backwards;
* `load_precedence`: the layer that decides, the failure that comes first, and that a loaded grammar
  expands its start symbol and never writes it out.
-/

namespace Sentences

namespace Assignment

/-! ## 1. Assignments -/

/-- The text of the last of several assignments to a name. -/
def lastText? (name : Text) (as : List Assignment) : Option Text :=
  Table.last? name (as.map fun a => (a.name, a.text))

theorem last?_write {as : List Assignment} (h : ∀ a ∈ as, a.name.bareName = a.name)
    (name : Text) : Table.last? name (as.map write) = lastText? name as := by
  rw [map_write h]
  rfl

/-- Assignments that can all be read are read. -/
theorem mapM_ofText_of_readAs {rules : List Text} {as : List Assignment}
    (h : ReadAs ofLine? rules as) : rules.mapM ofText = .ok as := by
  induction rules generalizing as with
  | nil =>
    rw [readAs_nil_iff.1 h]
    rfl
  | cons rule rest ih =>
    obtain ⟨first, others, hrule, hrest, rfl⟩ := readAs_cons_iff.1 h
    rw [List.mapM_cons, ofText_of_some hrule, ih hrest]
    rfl

/-- The first assignment that cannot be read is the fault. -/
theorem mapM_ofText_of_firstUnread {rules before : List Text} {bad : Text}
    (h : FirstUnread ofLine? rules before bad) :
    rules.mapM ofText = .error (.text (.assignment bad)) := by
  induction rules generalizing before with
  | nil => exact absurd h not_firstUnread_nil
  | cons rule rest ih =>
    cases hrule : ofLine? rule with
    | none =>
      obtain ⟨-, rfl⟩ := (firstUnread_cons_of_none hrule).1 h
      rw [List.mapM_cons, ofText_of_none hrule]
      rfl
    | some first =>
      obtain ⟨earlier, -, hrest⟩ := (firstUnread_cons_of_some hrule).1 h
      rw [List.mapM_cons, ofText_of_some hrule, ih hrest]
      rfl

end Assignment

namespace CommandLine.Arguments

open RulesFile (Item itemOf?)

/-! ## 2. What the arguments say -/

/-- What the lines of the rules file say; nothing if no file is named. -/
def FileSays (a : Arguments) (files : Text → FileContents) (items : List Item) : Prop :=
  match a.grammar with
  | none => items = []
  | some name => ∃ text, files name = .ok text ∧ ReadAs itemOf? text.lines items

/-- The file that is named cannot be had, or it has a line that cannot be read. -/
def FileFails (a : Arguments) (files : Text → FileContents) (cause : Failure) : Prop :=
  ∃ name, a.grammar = some name ∧
    ((∃ fault, files name = .error fault ∧ cause = .file fault) ∨
      ∃ text before bad, files name = .ok text ∧ FirstUnread itemOf? text.lines before bad ∧
        cause = .text (.line ⟨before.length + 1, bad.trim⟩))

/-- The word option for a lexical category, if it is given. -/
def wordText? (a : Arguments) (name : Text) : Option Text :=
  if name = "noun".toList then a.nouns
  else if name = "verb".toList then a.verbs
  else if name = "prep".toList then a.preps
  else if name = "article".toList then a.articles
  else none

/-- The rule text that the options and the file give to a name: the last `--rule` option for it,
    else its word option, else the last assignment of the file. -/
def decidingText? (a : Arguments) (items : List Item) (overrides : List Assignment) (name : Text) :
    Option Text :=
  (Assignment.lastText? name overrides).or
    ((a.wordText? name).or (Assignment.lastText? name (items.filterMap Item.rule?)))

/-- The rule of a name after loading: the one of the deciding text, else the built-in one, if those
    are wanted. -/
def decidingRule? (a : Arguments) (items : List Item) (overrides : List Assignment) (name : Text) :
    Option Rule :=
  ((a.decidingText? items overrides name).map Rule.ofText).or
    (if a.noDefaults then none else (Grammar.starter {}).rules.get? name)

/-- The start symbol after loading: the one asked for, else the file's last one, else `start`. -/
def decidingStart (a : Arguments) (items : List Item) : Text :=
  ((a.start.map Text.bareName).or (items.filterMap Item.start?).getLast?).getD "start".toList

/-- The grammar with all layers, its start symbol unchecked. -/
def layered (a : Arguments) (items : List Item) (overrides : List Assignment) : Grammar :=
  a.withStart (((a.base.applyRulesFile (.ofItems items)).setRules a.words).setRules overrides)

variable {a : Arguments} {files : Text → FileContents} {items : List Item}
  {overrides : List Assignment} {cause : Failure} {before : List Text} {bad : Text}

/-! ## 3. What can go wrong -/

/-- The file says something, or it fails. -/
theorem fileSays_or_fileFails (a : Arguments) (files : Text → FileContents) :
    (∃ items, a.FileSays files items) ∨ ∃ cause, a.FileFails files cause := by
  cases hgrammar : a.grammar with
  | none =>
    refine .inl ⟨[], ?_⟩
    unfold FileSays
    rw [hgrammar]
  | some name =>
    cases hfile : files name with
    | error fault => exact .inr ⟨.file fault, name, hgrammar, .inl ⟨fault, hfile, rfl⟩⟩
    | ok text =>
      rcases readAs_or_firstUnread itemOf? text.lines with ⟨items, hitems⟩ | ⟨before, bad, hbad⟩
      · refine .inl ⟨items, ?_⟩
        unfold FileSays
        rw [hgrammar]
        exact ⟨text, hfile, hitems⟩
      · exact .inr ⟨_, name, hgrammar, .inr ⟨text, before, bad, hfile, hbad, rfl⟩⟩

/-- What the file says stands on lines. -/
theorem FileSays.exists_lines (h : a.FileSays files items) :
    ∃ lines, ReadAs itemOf? lines items := by
  unfold FileSays at h
  split at h
  · exact ⟨[], readAs_nil_iff.2 h⟩
  · obtain ⟨text, -, hitems⟩ := h
    exact ⟨text.lines, hitems⟩

theorem withFile_of_fileSays (h : a.FileSays files items) (g : Grammar) :
    a.withFile files g = .ok (g.applyRulesFile (.ofItems items)) := by
  unfold FileSays at h
  unfold withFile
  split
  · rename_i hgrammar
    rw [hgrammar] at h
    dsimp only at h
    rw [h]
    rfl
  · rename_i name hgrammar
    rw [hgrammar] at h
    obtain ⟨text, hfile, hitems⟩ := h
    unfold Grammar.applyFile
    rw [hfile, RulesFile.ofContents_of_readAs hitems]
    rfl

theorem withFile_of_fileFails (h : a.FileFails files cause) (g : Grammar) :
    a.withFile files g = .error cause := by
  obtain ⟨name, hgrammar, ⟨fault, hfile, rfl⟩ | ⟨text, before, bad, hfile, hbad, rfl⟩⟩ := h
  · unfold withFile Grammar.applyFile
    rw [hgrammar]
    dsimp only
    rw [hfile]
    rfl
  · unfold withFile Grammar.applyFile
    rw [hgrammar]
    dsimp only
    rw [hfile, RulesFile.ofContents_of_firstUnread hbad]
    rfl

/-! ## 4. What is loaded -/

theorem load_of_fileFails (h : a.FileFails files cause) : a.load files = .error cause := by
  unfold load
  rw [withFile_of_fileFails h]
  rfl

theorem load_of_firstUnread (hfile : a.FileSays files items)
    (h : FirstUnread Assignment.ofLine? a.rules before bad) :
    a.load files = .error (.text (.assignment bad)) := by
  unfold load overrides
  rw [withFile_of_fileSays hfile, Assignment.mapM_ofText_of_firstUnread h]
  rfl

/-- **When everything can be read, the layers are put on top of one another** and the start symbol
    is checked. -/
theorem load_of_readAs (hfile : a.FileSays files items)
    (h : ReadAs Assignment.ofLine? a.rules overrides) :
    a.load files = (a.layered items overrides).checkStart := by
  unfold load Arguments.overrides
  rw [withFile_of_fileSays hfile, Assignment.mapM_ofText_of_readAs h]
  rfl

/-! ## 5. The layers -/

theorem lastText?_filterMap_cons (name other : Text) (text : Option Text)
    (ws : List (Text × Option Text)) :
    Assignment.lastText? name (((other, text) :: ws).filterMap fun w =>
        w.2.map (Assignment.mk w.1)) =
      (Assignment.lastText? name (ws.filterMap fun w => w.2.map (Assignment.mk w.1))).or
        (if other = name then text else none) := by
  cases text with
  | none =>
    rw [ite_self, Option.or_none]
    rfl
  | some text => rfl

/-- The word options write one text to each category whose option is given. -/
theorem lastText?_words (a : Arguments) (name : Text) :
    Assignment.lastText? name a.words = a.wordText? name := by
  have hempty : Assignment.lastText? name [] = none := rfl
  unfold words wordText?
  rw [lastText?_filterMap_cons, lastText?_filterMap_cons, lastText?_filterMap_cons,
    lastText?_filterMap_cons, List.filterMap_nil, hempty, Option.none_or]
  by_cases hnoun : name = "noun".toList
  · subst hnoun
    simp
  by_cases hverb : name = "verb".toList
  · subst hverb
    simp
  by_cases hprep : name = "prep".toList
  · subst hprep
    simp
  by_cases harticle : name = "article".toList
  · subst harticle
    simp
  simp only [if_neg hnoun, if_neg hverb, if_neg hprep, if_neg harticle, if_neg (Ne.symm hnoun),
    if_neg (Ne.symm hverb), if_neg (Ne.symm hprep), if_neg (Ne.symm harticle), Option.or_none]

/-- The categories are spelled bare. -/
theorem bareName_of_mem_words {w : Assignment} (h : w ∈ a.words) : w.name.bareName = w.name := by
  obtain ⟨option, hoption, hw⟩ := List.mem_filterMap.1 h
  obtain ⟨text, -, rfl⟩ := Option.map_eq_some_iff.1 hw
  have hmem : option.1 ∈ [("noun".toList, a.nouns), ("verb".toList, a.verbs),
      ("prep".toList, a.preps), ("article".toList, a.articles)].map Prod.fst :=
    List.mem_map_of_mem hoption
  exact Vocabulary.bareName_of_mem_categories hmem

/-- Before any file there are the built-in rules, or none. -/
theorem get?_base (a : Arguments) (name : Text) : a.base.rules.get? name =
    if a.noDefaults then none else (Grammar.starter {}).rules.get? name := by
  have hconfig : ∀ g : Grammar, (g.setConfig a.config).rules = g.rules := fun g => rfl
  unfold base
  rw [hconfig]
  split
  · rfl
  · rfl

theorem start_base (a : Arguments) : a.base.start = "start".toList := by
  have hconfig : ∀ g : Grammar, (g.setConfig a.config).start = g.start := fun g => rfl
  unfold base
  rw [hconfig]
  split
  · rfl
  · unfold Grammar.starter Grammar.setWords
    rw [Grammar.start_setRules, Grammar.start_setRules]
    rfl

theorem rules_withStart (a : Arguments) (g : Grammar) : (a.withStart g).rules = g.rules := by
  unfold withStart
  split
  · rfl
  · rfl

/-- **The rule of a name is that of the last layer that says anything about it.** -/
theorem get?_layered (hfile : a.FileSays files items)
    (h : ReadAs Assignment.ofLine? a.rules overrides) (name : Text) :
    (a.layered items overrides).rules.get? name = a.decidingRule? items overrides name := by
  obtain ⟨lines, hlines⟩ := hfile.exists_lines
  have hoverrides : ∀ x ∈ overrides, x.name.bareName = x.name := fun x hx => by
    obtain ⟨line, -, hline⟩ := h.exists_of_mem hx
    exact Assignment.bareName_name hline
  have hitems : ∀ x ∈ (RulesFile.ofItems items).rules, x.name.bareName = x.name :=
    fun x hx => RulesFile.bareName_of_mem_rules hlines hx
  unfold layered decidingRule? decidingText?
  rw [rules_withStart, Grammar.get?_setRules, Grammar.get?_setRules, Grammar.get?_applyRulesFile,
    Assignment.last?_write hoverrides, Assignment.last?_write fun w => bareName_of_mem_words,
    Assignment.last?_write hitems, lastText?_words, get?_base, Option.map_or, Option.map_or,
    Option.or_assoc, Option.or_assoc]
  rfl

/-- **The start symbol is the one asked for, else the file's last one, else the default.** -/
theorem start_layered (hfile : a.FileSays files items) (overrides : List Assignment) :
    (a.layered items overrides).start = a.decidingStart items := by
  obtain ⟨lines, hlines⟩ := hfile.exists_lines
  have hchosen : (RulesFile.ofItems items).start.map Text.bareName =
      (items.filterMap Item.start?).getLast? := by
    show (items.filterMap Item.start?).getLast?.map Text.bareName = _
    cases hlast : (items.filterMap Item.start?).getLast? with
    | none => rfl
    | some name =>
      exact congrArg some (RulesFile.bareName_of_mem_starts hlines (List.mem_of_getLast? hlast))
  have hfirst : (((a.base.applyRulesFile (.ofItems items)).setRules a.words).setRules
      overrides).start = (items.filterMap Item.start?).getLast?.getD "start".toList := by
    rw [Grammar.start_setRules, Grammar.start_setRules, Grammar.start_applyRulesFile, hchosen,
      start_base]
  unfold layered withStart decidingStart
  split
  · rename_i hstart
    rw [hstart, hfirst]
    rfl
  · rename_i start hstart
    rw [hstart]
    rfl

/-- When everything can be read, only a start symbol that no layer gives a rule is a fault. -/
theorem load_eq_error_iff (hfile : a.FileSays files items)
    (h : ReadAs Assignment.ofLine? a.rules overrides) : a.load files = .error cause ↔
      a.decidingRule? items overrides (a.decidingStart items).bareName = none ∧
        cause = .unknownStart (a.decidingStart items) := by
  rw [load_of_readAs hfile h, Grammar.checkStart_eq_error_iff, Grammar.has, Table.contains,
    get?_layered hfile h, start_layered hfile, Option.isSome_eq_false_iff,
    Option.isNone_iff_eq_none]

/-! ## 6. Which layer decides -/

/-- Loading is the failure of the file, the first `--rule` option that cannot be read, or the check
    of all layers. -/
theorem load_cases (a : Arguments) (files : Text → FileContents) :
    (∃ cause, a.FileFails files cause ∧ a.load files = .error cause) ∨
    ∃ items, a.FileSays files items ∧
      ((∃ before bad, FirstUnread Assignment.ofLine? a.rules before bad ∧
        a.load files = .error (.text (.assignment bad))) ∨
      ∃ overrides, ReadAs Assignment.ofLine? a.rules overrides ∧
        a.load files = (a.layered items overrides).checkStart) := by
  rcases fileSays_or_fileFails a files with ⟨items, hfile⟩ | ⟨cause, hfile⟩
  · refine .inr ⟨items, hfile, ?_⟩
    rcases readAs_or_firstUnread Assignment.ofLine? a.rules with ⟨overrides, h⟩ | ⟨before, bad, h⟩
    · exact .inr ⟨overrides, h, load_of_readAs hfile h⟩
    · exact .inl ⟨before, bad, h, load_of_firstUnread hfile h⟩
  · exact .inl ⟨cause, hfile, load_of_fileFails hfile⟩

/-- A grammar that passes the check of its start symbol expands that symbol. -/
theorem generate_of_has {g : Grammar} {start : Text} (h : g.has start = true) (draws : Draws)
    (fuel : Nat) : g.generate draws fuel start =
      (g.expand draws fuel 0 (.nonterminal start.bareName)).map g.config.sentence := by
  unfold Grammar.generate Grammar.leaves
  rw [if_pos h]

/-- **The last layer that says anything decides, and the first failure counts.** A grammar that is
    loaded has for each name the rule of the last `--rule` option for it, else of its word option,
    else of the last assignment in the file, else the built-in one, and a start symbol that it can
    expand. Loading fails with what is wrong with the file, else with the first `--rule` option that
    is no assignment, else with a start symbol without a rule, and for no other reason. -/
theorem load_precedence (a : Arguments) (files : Text → FileContents) :
    (∀ g, a.load files = .ok g → ∃ items overrides, a.FileSays files items ∧
      ReadAs Assignment.ofLine? a.rules overrides ∧
      (∀ name, g.rules.get? name = a.decidingRule? items overrides name) ∧
      g.start = a.decidingStart items ∧ g.has g.start = true ∧
      ∀ draws fuel, g.generate draws fuel g.start =
        (g.expand draws fuel 0 (.nonterminal g.start.bareName)).map g.config.sentence) ∧
    ∀ cause, a.load files = .error cause ↔
      a.FileFails files cause ∨
      ∃ items, a.FileSays files items ∧
        ((∃ before bad, FirstUnread Assignment.ofLine? a.rules before bad ∧
          cause = .text (.assignment bad)) ∨
        ∃ overrides, ReadAs Assignment.ofLine? a.rules overrides ∧
          a.decidingRule? items overrides (a.decidingStart items).bareName = none ∧
          cause = .unknownStart (a.decidingStart items)) := by
  refine ⟨fun g hload => ?_, fun cause => ⟨fun hload => ?_, fun hcause => ?_⟩⟩
  · rcases load_cases a files with ⟨cause, -, herror⟩ | ⟨items, hfile, hrest⟩
    · rw [herror] at hload
      cases hload
    · rcases hrest with ⟨before, bad, -, herror⟩ | ⟨overrides, hrules, hcheck⟩
      · rw [herror] at hload
        cases hload
      · rw [hcheck, Grammar.checkStart_eq_ok_iff] at hload
        obtain ⟨hhas, rfl⟩ := hload
        exact ⟨items, overrides, hfile, hrules, get?_layered hfile hrules,
          start_layered hfile overrides, hhas, generate_of_has hhas⟩
  · rcases load_cases a files with ⟨cause', hfails, herror⟩ | ⟨items, hfile, hrest⟩
    · rw [herror] at hload
      cases hload
      exact .inl hfails
    · refine .inr ⟨items, hfile, ?_⟩
      rcases hrest with ⟨before, bad, hbad, herror⟩ | ⟨overrides, hrules, -⟩
      · rw [herror] at hload
        cases hload
        exact .inl ⟨before, bad, hbad, rfl⟩
      · exact .inr ⟨overrides, hrules, (load_eq_error_iff hfile hrules).1 hload⟩
  · rcases hcause with hfails | ⟨items, hfile, ⟨before, bad, hbad, rfl⟩ | ⟨overrides, hrules, h⟩⟩
    · exact load_of_fileFails hfails
    · exact load_of_firstUnread hfile hbad
    · exact (load_eq_error_iff hfile hrules).2 h

/-- A file, a blank word option and three `--rule` options, two of them for one name. -/
def crowded : Arguments where
  grammar := some "rules".toList
  noDefaults := true
  rules := ["noun = cat".toList, "x = <noun>".toList, "<x> ::= <verb>".toList]
  nouns := some "dog".toList
  verbs := some []

/-- The only file there is. -/
def oneFile : Text → FileContents :=
  fun _ => .ok "@start = <x>\nverb = barks\n<prep> ::= at\n".toList

/-- What its lines say. -/
def oneFileItems : List Item :=
  [.start "x".toList, .rule ⟨"verb".toList, "barks".toList⟩, .rule ⟨"prep".toList, "at".toList⟩]

/-- What the three options say. -/
def crowdedOverrides : List Assignment :=
  [⟨"noun".toList, "cat".toList⟩, ⟨"x".toList, "<noun>".toList⟩, ⟨"x".toList, "<verb>".toList⟩]

theorem load_precedence_crowded :
    (∃ g, crowded.load oneFile = .ok g ∧
      ["noun", "x", "verb", "prep", "article"].map (fun name => g.rules.get? name.toList) =
        [some (Rule.ofText "cat".toList), some (Rule.ofText "<verb>".toList), some ⟨[]⟩,
          some (Rule.ofText "at".toList), none] ∧
      g.start = "x".toList ∧ g.has g.start = true) ∧
    Arguments.load { crowded with start := some "<y>".toList } oneFile =
      .error (.unknownStart "y".toList) := by
  have hlines : ReadAs itemOf? (Text.lines "@start = <x>\nverb = barks\n<prep> ::= at\n".toList)
      oneFileItems := by
    show _ = _
    decide +kernel
  have hrules : ReadAs Assignment.ofLine? crowded.rules crowdedOverrides := by
    show _ = _
    decide +kernel
  refine ⟨?_, ((load_precedence { crowded with start := some "<y>".toList } oneFile).2 _).2
    (.inr ⟨oneFileItems, ⟨_, rfl, hlines⟩, .inr ⟨crowdedOverrides, hrules, ?_, ?_⟩⟩)⟩
  · have hok : (crowded.load oneFile).isOk = true := by decide +kernel
    cases hload : crowded.load oneFile with
    | error cause =>
      rw [hload] at hok
      cases hok
    | ok g =>
      obtain ⟨items, overrides, hfile, hread, hget, hstart, hhas, -⟩ :=
        (load_precedence crowded oneFile).1 g hload
      obtain ⟨text, htext, hitems⟩ := hfile
      cases htext
      cases hitems.unique hlines
      cases hread.unique hrules
      have hrule : ∀ name ∈ ["noun", "x", "verb", "prep", "article"], g.rules.get? name.toList =
          crowded.decidingRule? oneFileItems crowdedOverrides name.toList :=
        fun name _ => hget name.toList
      refine ⟨g, rfl, ?_, hstart.trans (by decide +kernel), hhas⟩
      rw [List.map_congr_left hrule]
      decide +kernel
  · decide +kernel
  · decide +kernel

end CommandLine.Arguments

end Sentences
