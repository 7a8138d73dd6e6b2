import Sentences.Proofs.BareNames
import Sentences.Proofs.Graded
import Sentences.Proofs.Listing
import Sentences.Proofs.RuleText
import Sentences.Proofs.WriteLog

/-!
# The rules of the starter grammar

The starter grammar has ten rules, whatever its vocabulary: six that give the shape of a sentence,
and one for each lexical category, whose alternatives are the words of its text.

* `Symbol.scan_of_notMem`, `Rule.ofText_of_words`: text without references is words;
* `get?_starter_iff`: the ten rules and no others;
* `setWords_starter`: another vocabulary makes the starter grammar of that vocabulary;
* `HasStarterRules.graded`: its references lead downwards, from the start through seven levels;
* `HasStarterRules.alternatives`, `HasStarterRules.pickable`: there are words to pick, and every one
  of them can be picked.
-/

namespace Sentences

/-! ## 1. Words -/

/-- The alternatives of a text without references: a word for each piece, or nothing. -/
def wordAlternatives (text : Text) : List Production :=
  (text.splitOn alternativeMark).map fun piece : Text =>
    ⟨if piece.trim = [] then [] else [.terminal piece.trim]⟩

theorem mem_of_mem_splitOn {mark c : Char} {t piece : Text} (h : piece ∈ t.splitOn mark)
    (hc : c ∈ piece) : c ∈ t := by
  have hwhole : [mark].intercalate (t.splitOn mark) = t := List.intercalate_splitOn mark
  rw [← hwhole]
  revert h
  generalize t.splitOn mark = pieces
  intro h
  induction pieces with
  | nil => cases h
  | cons first rest ih =>
    cases rest with
    | nil =>
      rw [List.mem_singleton.1 h] at hc
      rwa [List.intercalate_singleton]
    | cons next rest =>
      rw [List.intercalate_cons_cons, List.mem_append, List.mem_append]
      rcases List.mem_cons.1 h with h | h
      · rw [h] at hc
        exact .inl (.inl hc)
      · exact .inr (ih h)

/-- A text without an opening bracket is one terminal, unless it is empty. -/
theorem Symbol.scan_of_notMem {t : Text} (h : openMark ∉ t) :
    scan t = if t = [] then [] else [.terminal t] := by
  by_cases ht : t = []
  · rw [if_pos ht, ht, scan]
  · have hword : Scanned [.terminal t] := .terminal ht h (fun c hc => by cases hc) .nil
    have hscan := hword.scan_texts
    rw [texts_terminal, List.flatMap_nil, List.append_nil] at hscan
    rw [if_neg ht, hscan]

/-- **A text without references is read as its words.** -/
theorem Rule.ofText_of_words {text : Text} (hblank : text.allBlank = false)
    (hopen : openMark ∉ text) : ofText text = ⟨wordAlternatives text⟩ := by
  unfold ofText
  rw [hblank, if_neg Bool.false_ne_true]
  refine congrArg Rule.mk (List.map_congr_left fun piece hpiece => ?_)
  have hpiece : openMark ∉ piece.trim :=
    fun hm => hopen (mem_of_mem_splitOn hpiece (Text.mem_of_mem_trim hm))
  rw [Production.ofText, Symbol.scan_of_notMem hpiece]

/-! ## 2. Ten rules -/

/-- The texts of the four lexical categories. -/
def Vocabulary.texts (v : Vocabulary) : List Text :=
  v.assignments.map Assignment.text

/-- A vocabulary of words: no text is blank, and none refers to a nonterminal. -/
def Vocabulary.Plain (v : Vocabulary) : Prop :=
  ∀ text ∈ v.texts, text.allBlank = false ∧ openMark ∉ text

instance (v : Vocabulary) : Decidable v.Plain :=
  inferInstanceAs (Decidable (∀ text ∈ v.texts, text.allBlank = false ∧ openMark ∉ text))

namespace Starter

/-- A reference by its name. -/
def ref (name : String) : Symbol :=
  .nonterminal name.toList

/-- The six rules that give the shape of a sentence. -/
def shapeRules : List (Text × Rule) :=
  [(start, ⟨[⟨[ref "noun-phrase", ref "verb-phrase"]⟩]⟩),
   ("noun-phrase".toList, ⟨[⟨[ref "cmplx-noun"]⟩, ⟨[ref "cmplx-noun", ref "prep-phrase"]⟩]⟩),
   ("verb-phrase".toList, ⟨[⟨[ref "cmplx-verb"]⟩, ⟨[ref "cmplx-verb", ref "prep-phrase"]⟩]⟩),
   ("prep-phrase".toList, ⟨[⟨[ref "prep", ref "cmplx-noun"]⟩]⟩),
   ("cmplx-noun".toList, ⟨[⟨[ref "article", ref "noun"]⟩]⟩),
   ("cmplx-verb".toList, ⟨[⟨[ref "verb"]⟩, ⟨[ref "verb", ref "noun-phrase"]⟩]⟩)]

theorem shapeRules_eq : shape.map (fun a => (a.name, Rule.ofText a.text)) = shapeRules := by
  decide +kernel

/-- The rules of the four lexical categories. -/
def wordRules (v : Vocabulary) : List (Text × Rule) :=
  v.assignments.map fun a => (a.name, Rule.ofText a.text)

theorem map_write_assignments (v : Vocabulary) :
    (assignments v).map Assignment.write = (assignments v).map fun a => (a.name, a.text) := by
  refine Assignment.map_write fun a ha => ?_
  have hname : a.name ∈ (assignments v).map Assignment.name := List.mem_map_of_mem ha
  exact bareName_of_mem_names a.name hname

end Starter

namespace Grammar

theorem starter_eq_setRules (v : Vocabulary) : starter v = empty.setRules (Starter.assignments v) :=
  List.foldl_append.symm

/-- **The starter grammar has ten rules**, six for the shape of a sentence and four for the
    vocabulary. -/
theorem get?_starter_iff (v : Vocabulary) (name : Text) (rule : Rule) :
    (starter v).rules.get? name = some rule ↔
      (name, rule) ∈ Starter.shapeRules ∨ (name, rule) ∈ Starter.wordRules v := by
  have hentries : (Starter.assignments v).map (fun a => (a.name, Rule.ofText a.text)) =
      Starter.shapeRules ++ Starter.wordRules v := by
    rw [← Starter.shapeRules_eq, Starter.wordRules, ← List.map_append]
    rfl
  have hnodup : (((Starter.assignments v).map fun a => (a.name, Rule.ofText a.text)).map
      (·.1)).Nodup := by
    rw [List.map_map]
    exact Starter.nodup_names
  rw [starter_eq_setRules, get?_setRules, Starter.map_write_assignments]
  show (Option.or _ none) = _ ↔ _
  rw [Option.or_none, ← Table.last?_map, List.map_map, ← List.mem_append, ← hentries]
  exact Table.last?_eq_some_iff_of_nodup hnodup name rule

/-- **Another vocabulary makes the starter grammar of that vocabulary.** -/
theorem setWords_starter (v w : Vocabulary) : (starter v).setWords w = starter w :=
  setWords_setWords _ v w

end Grammar

/-! ## 3. Heights -/

namespace Starter

/-- The levels of the names above the lexical categories. -/
def heights : List (Text × Nat) :=
  [(start, 6), ("verb-phrase".toList, 5), ("cmplx-verb".toList, 4), ("noun-phrase".toList, 3),
   ("prep-phrase".toList, 2), ("cmplx-noun".toList, 1)]

/-- The level of a name; a lexical category is at the bottom. -/
def height (name : Text) : Nat :=
  (heights.lookup name).getD 0

/-- Whether a symbol refers to a name below a level. -/
def isBelow (bound : Nat) : Symbol → Bool
  | .terminal _ => true
  | .nonterminal name => decide (height name < bound)

theorem shapeRules_below : ∀ e ∈ shapeRules, ∀ p ∈ e.2.productions, ∀ s ∈ p.symbols,
    isBelow (height e.1) s = true := by
  decide +kernel

theorem shapeRules_length : ∀ e ∈ shapeRules,
    0 < e.2.productions.length ∧ e.2.productions.length < UInt64.size := by
  decide +kernel

end Starter

namespace Grammar

variable {g : Grammar} {v : Vocabulary}

/-- The rules of a grammar are those of the starter grammar with some vocabulary. -/
def HasStarterRules (g : Grammar) (v : Vocabulary) : Prop :=
  g.rules = (starter v).rules

/-- The rule of a lexical category has the words of its text. -/
theorem exists_words_of_mem (hv : v.Plain) {name : Text} {rule : Rule}
    (h : (name, rule) ∈ Starter.wordRules v) :
    ∃ text ∈ v.texts, rule = ⟨wordAlternatives text⟩ := by
  obtain ⟨a, ha, he⟩ := List.mem_map.1 h
  have htext : a.text ∈ v.assignments.map Assignment.text := List.mem_map_of_mem ha
  obtain ⟨hblank, hopen⟩ := hv a.text htext
  refine ⟨a.text, htext, ?_⟩
  rw [← Rule.ofText_of_words hblank hopen]
  exact (congrArg Prod.snd he).symm

/-- Nothing at or above the start is higher than the sixth level. -/
theorem below_start (g : Grammar) : g.Below Starter.height 7 [.nonterminal Starter.start] := by
  intro name _ hname _
  cases List.mem_singleton.1 hname
  decide

theorem starter_rules (v : Vocabulary) : (starter v).HasStarterRules v := rfl

namespace HasStarterRules

theorem setConfig (h : g.HasStarterRules v) (config : Config) :
    (g.setConfig config).HasStarterRules v := h

theorem get?_iff (h : g.HasStarterRules v) (name : Text) (rule : Rule) :
    g.rules.get? name = some rule ↔
      (name, rule) ∈ Starter.shapeRules ∨ (name, rule) ∈ Starter.wordRules v := by
  rw [h]
  exact get?_starter_iff v name rule

/-- The start has a rule. -/
theorem has_start (h : g.HasStarterRules v) : g.has Starter.start = true := by
  have hstart := (h.get?_iff _ _).2 (.inl (List.mem_cons_self (l := Starter.shapeRules.tail)))
  unfold has Table.contains
  rw [Starter.bareName_of_mem_names Starter.start (by decide), hstart]
  rfl

/-- **The references of the starter grammar lead downwards.** -/
theorem graded (h : g.HasStarterRules v) (hv : v.Plain) : g.Graded Starter.height := by
  intro name rule p hname hp ref other href _
  rcases (h.get?_iff name rule).1 hname with hshape | hword
  · exact of_decide_eq_true (Starter.shapeRules_below _ hshape p hp _ href)
  · -- the alternatives of a lexical category refer to nothing
    obtain ⟨text, -, rfl⟩ := exists_words_of_mem hv hword
    obtain ⟨piece, -, rfl⟩ := List.mem_map.1 hp
    dsimp only at href
    split at href
    · cases href
    · cases List.mem_singleton.1 href

/-- Every rule has an alternative. -/
theorem alternatives (h : g.HasStarterRules v) (hv : v.Plain) {name : Text} {rule : Rule}
    (hname : g.rules.get? name = some rule) : rule.productions ≠ [] := by
  rcases (h.get?_iff name rule).1 hname with hshape | hword
  · exact List.length_pos_iff.1 (Starter.shapeRules_length _ hshape).1
  · obtain ⟨text, -, rfl⟩ := exists_words_of_mem hv hword
    intro hnil
    exact List.splitOn_ne_nil alternativeMark text (List.map_eq_nil_iff.1 hnil)

/-- **Every word can be picked**, if no category has more words than there are draws. -/
theorem pickable (h : g.HasStarterRules v) (hv : v.Plain)
    (hlength : ∀ text ∈ v.texts, (text.splitOn alternativeMark).length < UInt64.size) :
    g.Pickable := by
  intro name rule hname
  rcases (h.get?_iff name rule).1 hname with hshape | hword
  · exact (Starter.shapeRules_length _ hshape).2
  · obtain ⟨text, htext, rfl⟩ := exists_words_of_mem hv hword
    rw [wordAlternatives, List.length_map]
    exact hlength text htext

end HasStarterRules

end Grammar

end Sentences
