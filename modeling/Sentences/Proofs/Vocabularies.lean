import Sentences.Proofs.Starter

/-!
# Another vocabulary

A vocabulary writes the rules of the four lexical categories. Which of the four a grammar has
already decides where they stand in its order, and nothing else.

* `get?_setWords_of_other`, `get?_setWords`: the rules of the categories are written, all others
  stay;
* `order_setWords`: categories that are new come behind the names there are;
* `names_sublist_setWords`: so a listing has those names in the same order;
* `ofRules_zip`: the starter grammar from its names and texts.
-/

namespace Sentences

/-- The names of the starter grammar with its texts are its assignments. -/
theorem Starter.zipWith_names (v : Vocabulary) :
    List.zipWith Assignment.mk names (shape.map Assignment.text ++ v.texts) = assignments v := rfl

theorem Vocabulary.map_write (v : Vocabulary) :
    v.assignments.map Assignment.write = v.assignments.map fun a => (a.name, a.text) :=
  Assignment.map_write fun _ ha => bareName_of_mem_categories (name_mem_categories ha)

namespace Grammar

/-! ## 1. Rules -/

/-- Names other than the categories keep their rules. -/
theorem get?_setWords_of_other (g : Grammar) (v : Vocabulary) {name : Text}
    (hname : name ∉ Vocabulary.categories) :
    (g.setWords v).rules.get? name = g.rules.get? name := by
  refine get?_setRules_of_unwritten fun a ha he => hname ?_
  have hcategory := Vocabulary.name_mem_categories ha
  rw [← he, Vocabulary.bareName_of_mem_categories hcategory]
  exact hcategory

/-- A category has the words of the vocabulary. -/
theorem get?_setWords (g : Grammar) {v : Vocabulary} {a : Assignment} (ha : a ∈ v.assignments) :
    (g.setWords v).rules.get? a.name = some (Rule.ofText a.text) := by
  have hnodup : ((v.assignments.map fun a => (a.name, a.text)).map (·.1)).Nodup := by
    rw [List.map_map]
    exact Vocabulary.nodup_categories
  have hlast : Table.last? a.name (v.assignments.map fun a => (a.name, a.text)) = some a.text :=
    (Table.last?_eq_some_iff_of_nodup hnodup a.name a.text).2 (List.mem_map_of_mem ha)
  unfold setWords
  rw [get?_setRules, v.map_write, hlast]
  rfl

/-! ## 2. Order -/

/-- Categories that are new come behind the names there are. -/
theorem order_setWords (g : Grammar) (v : Vocabulary) : (g.setWords v).order =
    g.order ++ Vocabulary.categories.filter fun name => !g.rules.contains name := by
  have hnames : (v.assignments.map Assignment.write).map (·.1) = Vocabulary.categories := by
    rw [v.map_write, List.map_map]
    rfl
  unfold setWords
  rw [setRules_eq_record]
  show g.order ++ List.eraseDups (List.filter _ _) = _
  rw [hnames, Occurrences.eraseDups_of_nodup (Vocabulary.nodup_categories.filter _)]

/-- No name loses its rule. -/
theorem contains_setWords (g : Grammar) (v : Vocabulary) {name : Text}
    (hname : g.rules.contains name = true) : (g.setWords v).rules.contains name = true := by
  unfold setWords
  rw [setRules_eq_record]
  show (g.rules.writeAll _).contains name = true
  rw [Table.contains_writeAll, hname, Bool.or_true]

/-- The names there are stay in the same order. -/
theorem names_sublist_setWords (g : Grammar) (v : Vocabulary) :
    g.names.Sublist (g.setWords v).names := by
  unfold names
  refine List.Sublist.append ?_ ?_
  · exact List.monotone_filter_right _ fun name hname => g.contains_setWords v hname
  · rw [order_setWords]
    exact (List.sublist_append_left _ _).filter _

/-! ## 3. The starter grammar -/

/-- The starter grammar from its names and its texts. -/
theorem ofRules_zip (v : Vocabulary) :
    ofRules (List.zipWith Assignment.mk Starter.names (Starter.shape.map Assignment.text ++ v.texts)) =
      starter v := by
  rw [Starter.zipWith_names, starter_eq_setRules]
  rfl

/-- **A vocabulary touches the four categories only, and leaves nothing of the one before.** All
    other rules, the start symbol and the configuration stay, and so does the order of the names
    there are, since categories that are new come behind them. Words written twice are the words
    written last, in every field. So the starter grammar with a vocabulary is the one with its own
    words changed for it, and the one made of its ten names with six texts and the vocabulary's
    four. -/
theorem setWords_changes (g : Grammar) (v w : Vocabulary) :
    (∀ name, name ∉ Vocabulary.categories →
      (g.setWords v).rules.get? name = g.rules.get? name) ∧
    (∀ a ∈ v.assignments, (g.setWords v).rules.get? a.name = some (Rule.ofText a.text)) ∧
    (g.setWords v).start = g.start ∧ (g.setWords v).config = g.config ∧
    (g.setWords v).order =
      g.order ++ (Vocabulary.categories.filter fun name => !g.rules.contains name) ∧
    g.names.Sublist (g.setWords v).names ∧
    (g.setWords v).setWords w = g.setWords w ∧
    (starter {}).setWords v = starter v ∧
    ofRules (List.zipWith Assignment.mk Starter.names
      (Starter.shape.map Assignment.text ++ v.texts)) = starter v :=
  ⟨fun _ hname => g.get?_setWords_of_other v hname, fun _ ha => g.get?_setWords ha,
    g.start_setRules v.assignments, g.config_setRules v.assignments, g.order_setWords v,
    g.names_sublist_setWords v, g.setWords_setWords v w, setWords_starter {} v, ofRules_zip v⟩

/-- A grammar with two of the categories, one of them first. -/
def twoCategories : Grammar :=
  ofRules [⟨"prep".toList, "up".toList⟩, ⟨"start".toList, "<noun><pair>".toList⟩,
    ⟨"pair".toList, "<noun>, <prep>".toList⟩, ⟨"noun".toList, "cat".toList⟩]

theorem setWords_changes_twoCategories :
    "pair".toList ∉ Vocabulary.categories ∧
    (twoCategories.setWords { nouns := " ".toList }).rules.get? "pair".toList =
      twoCategories.rules.get? "pair".toList ∧
    (twoCategories.setWords { nouns := " ".toList }).rules.get? "noun".toList = some ⟨[]⟩ ∧
    (twoCategories.setWords { nouns := " ".toList }).order =
      ["prep", "start", "pair", "noun", "verb", "article"].map String.toList ∧
    ((twoCategories.setWords { nouns := " ".toList }).setWords {}) = twoCategories.setWords {} := by
  have hname : "pair".toList ∉ Vocabulary.categories := by decide +kernel
  obtain ⟨hother, hcategory, -, -, horder, -, hagain, -, -⟩ :=
    setWords_changes twoCategories { nouns := " ".toList } {}
  refine ⟨hname, hother _ hname, ?_, ?_, hagain⟩
  · exact hcategory ⟨"noun".toList, " ".toList⟩ List.mem_cons_self
  · rw [horder]
    decide +kernel

end Grammar

end Sentences
