import Sentences.Proofs.FileAppend
import Sentences.Proofs.Loading
import Sentences.Proofs.Starter

/-!
# The names that a grammar stores

A spelling is taken to its bare name wherever a rule or the start symbol is written or looked up,
by some ways more than once. Twice is once too often for a name such as `<a>`, which is stored for
the spelling `<<a>>` and stands for `a`. What is written by rules files and by assignments that are
read from text has no such names.

* `bareName_padded`, `bareName_eq_bareName_inBrackets_iff`: a name in its brackets stands for that
  name, whatever white space is around it; without the brackets only a bare name does;
* `bare_iff`: which names are bare, by their ends;
* `Grammar.expand_eq_literal_iff`: a reference is written out as it stands exactly when its text has
  no rule;
* `Assignment.bare_name`, `RulesFile.namesBare_of_ofText`: the names that are read are bare;
* `Grammar.StoresBare`, `StoresBare.edited`: edits by rules files and by assignments that are read
  keep it that all names of a grammar are bare;
* `CommandLine.Arguments.storesBare_of_load`: the grammar that is loaded has bare names only, if no
  start symbol is asked for.
-/

namespace Sentences

namespace Text

/-! ## 1. Which spellings stand for which names -/

/-- White space around a name in its brackets makes no difference. -/
theorem bareName_padded (name : Text) {before after : Text} (hbefore : before.allBlank = true)
    (hafter : after.allBlank = true) : bareName (before ++ (name.inBrackets ++ after)) = name := by
  have htrim : trim (before ++ (name.inBrackets ++ after)) = trim name.inBrackets := by
    rw [trim_blank_append hbefore, trim_append_blank hafter]
  have hbare := bareName_inBrackets name
  unfold bareName at hbare ⊢
  rwa [htrim]

theorem Bare.bareName_eq {t : Text} (h : t.Bare) : t.bareName = t :=
  (bareName_eq_self_iff t).2 h

theorem bare_of_bareName_eq {t : Text} (h : t.bareName = t) : t.Bare :=
  (bareName_eq_self_iff t).1 h

/-- Without its brackets a name stands for itself only if it is bare. -/
theorem bareName_eq_bareName_inBrackets_iff (name : Text) :
    name.bareName = name.inBrackets.bareName ↔ name.Bare := by
  rw [bareName_inBrackets, bareName_eq_self_iff]

theorem exists_eq_inBrackets_iff {t : Text} : (∃ name : Text, t = name.inBrackets) ↔
    t.head? = some openMark ∧ t.getLast? = some closeMark := by
  constructor
  · rintro ⟨name, rfl⟩
    exact ⟨rfl, List.getLast?_concat⟩
  · rintro ⟨hhead, hlast⟩
    obtain ⟨rest, rfl⟩ := List.head?_eq_some_iff.1 hhead
    -- a single character is not both marks
    have hne : rest ≠ [] := by
      rintro rfl
      exact absurd hlast (by decide)
    rw [List.getLast?_cons_of_ne_nil hne] at hlast
    have hbracketed : bracketed? (openMark :: rest) = some rest.dropLast := if_pos ⟨rfl, hlast⟩
    exact ⟨rest.dropLast, bracketed?_eq_some_iff.1 hbracketed⟩

/-- A name is bare when it has no white space at its ends, nor a pair of brackets. -/
theorem bare_iff (t : Text) :
    t.Bare ↔ t.Tight ∧ ¬ (t.head? = some openMark ∧ t.getLast? = some closeMark) := by
  rw [← exists_eq_inBrackets_iff, not_exists]
  rfl

end Text

/-! ## 2. Names that are read -/

/-- The names of assignments are bare. -/
theorem Assignment.bare_name {line : Text} {a : Assignment} (h : ofText line = .ok a) :
    a.name.Bare :=
  Text.bare_of_bareName_eq (bareName_name (ofText_eq_ok_iff.1 h))

namespace RulesFile

/-- A rules file whose names are bare, those of its rules and the one of its start directive. -/
structure NamesBare (file : RulesFile) : Prop where
  start : ∀ name, file.start = some name → name.Bare
  rules : ∀ a ∈ file.rules, a.name.Bare

/-- What lines say has bare names. -/
theorem namesBare_ofItems {lines : List Text} {items : List Item}
    (h : ReadAs itemOf? lines items) : (ofItems items).NamesBare where
  start := fun _ hname =>
    Text.bare_of_bareName_eq (bareName_of_mem_starts h (List.mem_of_getLast? hname))
  rules := fun _ ha => Text.bare_of_bareName_eq (bareName_of_mem_rules h ha)

/-- **The names in a rules file are bare.** -/
theorem namesBare_of_ofText {contents : Text} {file : RulesFile} (h : ofText contents = .ok file) :
    file.NamesBare := by
  rcases ofText_cases contents with ⟨items, hitems, hread⟩ | ⟨before, bad, -, hread⟩
  · obtain rfl : ofItems items = file := Except.ok.inj (hread.symm.trans h)
    exact namesBare_ofItems hitems
  · cases hread.symm.trans h

end RulesFile

namespace Grammar

variable {g : Grammar}

/-! ## 3. References and their text -/

theorem has_toText_nonterminal (g : Grammar) (name : Text) :
    g.has (Symbol.nonterminal name).toText = g.rules.contains name := by
  unfold has Symbol.toText
  rw [Text.bareName_inBrackets]

/-- **A reference is written out as it stands, without a draw, just when its text has no rule.** -/
theorem expand_eq_literal_iff {draws : Draws} {fuel depth pos : Nat} {name : Text} :
    g.expand draws fuel depth (.nonterminal name) pos =
        some (.ok [(Symbol.nonterminal name).toText], pos) ↔
      g.has (Symbol.nonterminal name).toText = false := by
  rw [has_toText_nonterminal, Table.contains, Option.isSome_eq_false_iff, Option.isNone_iff_eq_none]
  constructor
  · intro h
    rcases expand_nonterminal_cases h with ⟨hname, -, -⟩ | ⟨_, _, _, _, hr, _⟩ |
      ⟨_, _, _, _, hr, _⟩ | ⟨_, _, _, mid, _, _, _, _, hpick, _, hinner⟩
    · exact hname
    · cases hr
    · cases hr
    · -- a pick takes a draw, and what is picked is expanded behind it
      have hle : mid ≤ pos := (expands_of_concat _ _ _ _ _ _ hinner).pos_le
      exact absurd hpick.pos_lt (Nat.not_lt.2 hle)
  · intro hname
    rw [expand_undefined hname]
    rfl

/-! ## 4. Names that are stored -/

/-- A grammar whose rules, whose order and whose start symbol have bare names only. The references
    in its rules are kept as they are written, and may be other names. -/
structure StoresBare (g : Grammar) : Prop where
  rules : ∀ name, g.rules.contains name = true → name.Bare
  order : ∀ name ∈ g.order, name.Bare
  start : g.start.Bare

/-- A bare name that has a rule is found under its own spelling. -/
theorem StoresBare.has_of_contains (h : g.StoresBare) {name : Text}
    (hc : g.rules.contains name = true) : g.has name = true := by
  unfold has
  rwa [(h.rules name hc).bareName_eq]

theorem storesBare_empty : StoresBare .empty where
  rules := fun _ h => nomatch h
  order := fun _ h => nomatch h
  start := Text.bare_of_bareName_eq (by decide +kernel)

theorem StoresBare.setRule (h : g.StoresBare) {a : Assignment} (ha : a.name.Bare) :
    (g.setRule a).StoresBare := by
  have hname : a.name.bareName = a.name := ha.bareName_eq
  refine ⟨fun name hc => ?_, fun name hm => ?_, h.start⟩
  · unfold Grammar.setRule at hc
    rw [hname, Table.contains_insert] at hc
    rcases Bool.or_eq_true_iff.1 hc with he | hold
    · rw [of_decide_eq_true he]
      exact ha
    · exact h.rules name hold
  · unfold Grammar.setRule at hm
    rw [hname] at hm
    dsimp only at hm
    split at hm
    · exact h.order name hm
    · rcases List.mem_append.1 hm with hold | hnew
      · exact h.order name hold
      · rw [List.mem_singleton.1 hnew]
        exact ha

theorem StoresBare.setRules (h : g.StoresBare) {as : List Assignment}
    (has : ∀ a ∈ as, a.name.Bare) : (g.setRules as).StoresBare := by
  unfold Grammar.setRules
  induction as generalizing g with
  | nil => exact h
  | cons a rest ih =>
    obtain ⟨ha, hrest⟩ := List.forall_mem_cons.1 has
    exact ih (h.setRule ha) hrest

theorem StoresBare.setStart (h : g.StoresBare) {spelling : Text} (hs : spelling.Bare) :
    (g.setStart spelling).StoresBare := by
  refine ⟨h.rules, h.order, ?_⟩
  show spelling.bareName.Bare
  rwa [hs.bareName_eq]

theorem StoresBare.setConfig (h : g.StoresBare) (config : Config) :
    (g.setConfig config).StoresBare :=
  ⟨h.rules, h.order, h.start⟩

theorem StoresBare.applyRulesFile (h : g.StoresBare) {file : RulesFile} (hfile : file.NamesBare) :
    (g.applyRulesFile file).StoresBare := by
  unfold Grammar.applyRulesFile
  split
  · exact h.setRules hfile.rules
  · rename_i name hname
    exact (h.setRules hfile.rules).setStart (hfile.start name hname)

/-- A file that applies writes bare names. -/
theorem StoresBare.applyFile (h : g.StoresBare) {contents : FileContents} {g' : Grammar}
    (hf : g.applyFile contents = .ok g') : g'.StoresBare := by
  unfold Grammar.applyFile RulesFile.ofContents at hf
  rcases contents with fault | text
  · cases hf
  · dsimp only at hf
    cases hfile : RulesFile.ofText text with
    | error bad =>
      rw [hfile] at hf
      cases hf
    | ok file =>
      rw [hfile] at hf
      cases hf
      exact h.applyRulesFile (RulesFile.namesBare_of_ofText hfile)

theorem storesBare_starter (words : Vocabulary) : (starter words).StoresBare := by
  rw [starter_eq_setRules]
  refine storesBare_empty.setRules fun a ha => ?_
  have hname : a.name ∈ (Starter.assignments words).map Assignment.name := List.mem_map_of_mem ha
  exact Text.bare_of_bareName_eq (Starter.bareName_of_mem_names a.name hname)

end Grammar

/-- An edit by text: a rules file, or one assignment that is read. -/
inductive Edit.Textual : Edit → Prop where
  | file (contents : FileContents) : Edit.Textual (.applyFile contents)
  | assignment {line : Text} {a : Assignment} (h : Assignment.ofText line = .ok a) :
      Edit.Textual (.setRule a)

namespace Grammar

variable {g : Grammar}

/-- An edit by text keeps all names bare. -/
theorem StoresBare.apply (h : g.StoresBare) {e : Edit} (he : e.Textual) :
    (e.apply g).StoresBare := by
  cases he with
  | file contents =>
    unfold Edit.apply Edit.attempt
    split
    · rename_i hf
      exact h.applyFile hf
    · exact h
  | assignment hread => exact h.setRule (Assignment.bare_name hread)

/-- **Edits by text keep all names bare.** -/
theorem StoresBare.edited (h : g.StoresBare) {edits : List Edit} (hedits : ∀ e ∈ edits, e.Textual) :
    (g.edited edits).StoresBare := by
  unfold Grammar.edited
  induction edits generalizing g with
  | nil => exact h
  | cons e rest ih =>
    obtain ⟨he, hrest⟩ := List.forall_mem_cons.1 hedits
    exact ih (h.apply he) hrest

end Grammar

/-- **The grammar that is loaded has bare names only**, if no start symbol is asked for. -/
theorem CommandLine.Arguments.storesBare_of_load {a : Arguments} {files : Text → FileContents}
    {g : Grammar} (hstart : a.start = none) (h : a.load files = .ok g) : g.StoresBare := by
  rcases a.load_cases files with ⟨_, -, he⟩ | ⟨items, hfile, ⟨_, _, -, he⟩ | ⟨overrides, hread, he⟩⟩
  · cases he.symm.trans h
  · cases he.symm.trans h
  · rw [he] at h
    obtain ⟨-, rfl⟩ := Grammar.checkStart_eq_ok_iff.1 h
    obtain ⟨lines, hlines⟩ := hfile.exists_lines
    have hbase : a.base.StoresBare := by
      unfold base
      split
      · exact Grammar.storesBare_empty.setConfig _
      · exact (Grammar.storesBare_starter {}).setConfig _
    have hfiled := hbase.applyRulesFile (RulesFile.namesBare_ofItems hlines)
    have hwords : ∀ w ∈ a.words, w.name.Bare := fun w hw =>
      Text.bare_of_bareName_eq (bareName_of_mem_words hw)
    have hoverrides : ∀ x ∈ overrides, x.name.Bare := fun x hx => by
      obtain ⟨line, -, hline⟩ := hread.exists_of_mem hx
      exact Text.bare_of_bareName_eq (Assignment.bareName_name hline)
    unfold layered withStart
    rw [hstart]
    exact (hfiled.setRules hwords).setRules hoverrides

namespace Grammar

/-- **Names and their spellings.** A name in its brackets, with any white space around it, stands for
    that name, so a reference is found exactly when its text has a rule, and is written out
    otherwise. Without the brackets a name stands for itself just when it has no white space at its
    ends nor a pair of brackets. The names that are read from assignments and from rules files are
    such names, and so are all names of a grammar that is edited or loaded by these alone: what is
    stored in it is found under the name that it is stored under. -/
theorem name_normalization :
    (∀ name before after : Text, before.allBlank = true → after.allBlank = true →
      Text.bareName (before ++ (name.inBrackets ++ after)) = name) ∧
    (∀ (g : Grammar) (name : Text),
      g.has (Symbol.nonterminal name).toText = g.rules.contains name ∧
      ∀ draws fuel depth pos, g.expand draws fuel depth (.nonterminal name) pos =
          some (.ok [(Symbol.nonterminal name).toText], pos) ↔
        g.has (Symbol.nonterminal name).toText = false) ∧
    (∀ name : Text, (name.bareName = name.inBrackets.bareName ↔ name.Bare) ∧
      (name.Bare ↔
        name.Tight ∧ ¬ (name.head? = some openMark ∧ name.getLast? = some closeMark))) ∧
    (∀ line a, Assignment.ofText line = .ok a → a.name.Bare) ∧
    (∀ contents file, RulesFile.ofText contents = .ok file → file.NamesBare) ∧
    (∀ words edits, (∀ e ∈ edits, Edit.Textual e) →
      (empty.edited edits).StoresBare ∧ ((starter words).edited edits).StoresBare) ∧
    (∀ (a : CommandLine.Arguments) files g, a.start = none → a.load files = .ok g →
      g.StoresBare) ∧
    ∀ g name, StoresBare g → g.rules.contains name = true → g.has name = true :=
  ⟨fun name _ _ hbefore hafter => Text.bareName_padded name hbefore hafter,
    fun g name => ⟨has_toText_nonterminal g name, fun _ _ _ _ => expand_eq_literal_iff⟩,
    fun name => ⟨Text.bareName_eq_bareName_inBrackets_iff name, Text.bare_iff name⟩,
    fun _ _ => Assignment.bare_name,
    fun _ _ => RulesFile.namesBare_of_ofText,
    fun words _ hedits => ⟨storesBare_empty.edited hedits, (storesBare_starter words).edited hedits⟩,
    fun _ _ _ => CommandLine.Arguments.storesBare_of_load,
    fun _ _ hg => hg.has_of_contains⟩

/-- A start directive whose name has signs in it, and a rule. -/
def signedFile : Text :=
  "@start = <a=b:c>\n<a> ::= <<b>>\n".toList

/-- A file, a file that is not there, and an assignment with one bracket. -/
def signedEdits : List Edit :=
  [.applyFile (.ok signedFile), .applyFile (.error .notFound),
    .setRule ⟨"q,r".toList, "<a>".toList⟩]

theorem name_normalization_signed :
    Text.bareName "\t<<a>>\u00a0\n".toList = "<a>".toList ∧
    Text.bareName "<".toList = Text.bareName (Text.inBrackets "<".toList) ∧
    Text.bareName "<>".toList ≠ Text.bareName (Text.inBrackets "<>".toList) ∧
    (∀ draws, (empty.setRule ⟨"<<a>>".toList, "x".toList⟩).expand draws 9 0
      (.nonterminal "a".toList) 0 = some (.ok ["<a>".toList], 0)) ∧
    (∀ draws, (empty.setRule ⟨"<<a>>".toList, "x".toList⟩).expand draws 9 0
      (.nonterminal "<a>".toList) 0 ≠ some (.ok ["<<a>>".toList], 0)) ∧
    (∃ a, Assignment.ofText " <q,r = <a>".toList = .ok a ∧ a.name.Bare) ∧
    (∃ file, RulesFile.ofText signedFile = .ok file ∧ file.start = some "a=b:c".toList ∧
      file.NamesBare) ∧
    ((starter {}).edited signedEdits).StoresBare ∧
    ((starter {}).edited signedEdits).start = "a=b:c".toList ∧
    ((starter {}).edited signedEdits).has "q,r".toList = true ∧
    ∃ g, CommandLine.Arguments.crowded.load CommandLine.Arguments.oneFile = .ok g ∧
      g.StoresBare := by
  obtain ⟨hpadded, hfound, hsame, hread, hfile, hstored, hloaded, hkept⟩ :=
    name_normalization
  have hassignment : Assignment.ofText " <q,r = <a>".toList =
      .ok ⟨"q,r".toList, "<a>".toList⟩ := rfl
  have hedits : ∀ e ∈ signedEdits, Edit.Textual e := by
    intro e he
    simp only [signedEdits, List.mem_cons, List.not_mem_nil, or_false] at he
    rcases he with rfl | rfl | rfl
    · exact .file _
    · exact .file _
    · exact .assignment hassignment
  obtain ⟨g, hload⟩ : ∃ g, CommandLine.Arguments.crowded.load CommandLine.Arguments.oneFile =
      .ok g := ⟨_, rfl⟩
  have htight : Text.Tight "<".toList :=
    ⟨fun c hc => by cases hc; decide, fun c hc => by cases hc; decide⟩
  have hbare : Text.Bare "<".toList := (hsame _).2.2 ⟨htight, by decide⟩
  have hpair : ¬ Text.Bare "<>".toList := fun h => ((hsame _).2.1 h).2 ⟨rfl, rfl⟩
  have hbares := (hstored {} signedEdits hedits).2
  refine ⟨hpadded "<a>".toList "\t".toList "\u00a0\n".toList (by decide) (by decide),
    (hsame _).1.2 hbare, fun h => hpair ((hsame _).1.1 h), fun draws => ?_, fun draws => ?_,
    ⟨_, hassignment, hread _ _ hassignment⟩, ⟨_, rfl, rfl, hfile signedFile _ rfl⟩, hbares, ?_,
    hkept _ _ hbares ?_, g, hload, hloaded _ _ g rfl hload⟩
  · exact ((hfound _ _).2 draws 9 0 0).2 (by decide +kernel)
  · intro h
    have hnone := ((hfound _ _).2 draws 9 0 0).1 h
    revert hnone
    decide +kernel
  · decide +kernel
  · decide +kernel

end Grammar

end Sentences
