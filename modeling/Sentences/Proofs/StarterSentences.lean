import Sentences.Proofs.Language
import Sentences.Proofs.Starter

/-!
# The sentences of the starter grammar

A sentence of the starter grammar is made of slots, each filled from the text of one category:

  article noun (prep article noun)? verb (article noun (prep article noun)?)? (prep article noun)?

A slot is filled with one piece of the text, trimmed, and the separator after it; a blank piece
fills it with nothing.

* `Vocabulary.sentences`: the pattern, as a language;
* `language_start`: the trees of the starter grammar yield exactly these texts, since the equations
  of its rules solve to the pattern;
* `starter_returns`: along every script the start comes to such a sentence, under any limit from
  seven on, and to each of them along some script.
-/

namespace Sentences

/-! ## 1. The pattern -/

/-- What may stand in a slot for one category. -/
def slot (separator text : Text) : Language Char :=
  {t : Text | ∃ piece : Text, piece ∈ text.splitOn alternativeMark ∧
    t = if piece.trim = [] then [] else piece.trim ++ separator}

/-- The slots of a sentence, for the languages of the four categories. -/
def pattern (article noun verb prep : Language Char) : Language Char :=
  article * noun * (1 + prep * article * noun) * verb *
    (1 + article * noun * (1 + prep * article * noun)) * (1 + prep * article * noun)

/-- The sentences of the starter grammar, slot by slot, before they are trimmed. -/
def Vocabulary.sentences (v : Vocabulary) (separator : Text) : Language Char :=
  pattern (slot separator v.articles) (slot separator v.nouns) (slot separator v.verbs)
    (slot separator v.preps)

/-- A noun phrase and a verb phrase, with the phrases in them put in. -/
theorem phrases_eq_pattern (article noun verb prep : Language Char) :
    article * noun * (1 + prep * (article * noun)) *
        (verb * (1 + article * noun * (1 + prep * (article * noun))) *
          (1 + prep * (article * noun))) =
      pattern article noun verb prep := by
  unfold pattern
  simp only [mul_assoc]

/-- A sentence as the configuration shows it. -/
def Config.finish (c : Config) (t : Text) : Text :=
  if c.trim then t.trim else t

namespace Grammar

variable {g : Grammar} {v : Vocabulary}

/-! ## 2. Slots -/

theorem language_word (g : Grammar) (word : Text) :
    g.language (if word = [] then [] else [.terminal word]) =
      ({if word = [] then [] else word ++ g.config.separator} : Set Text) := by
  by_cases hword : word = []
  · rw [if_pos hword, if_pos hword, language_nil]
    rfl
  · rw [if_neg hword, if_neg hword, language_terminal]

/-- A category's words fill its slot. -/
theorem language_words {name text : Text}
    (h : g.rules.get? name = some ⟨wordAlternatives text⟩) :
    g.language [.nonterminal name] = slot g.config.separator text := by
  refine Language.ext fun t => ?_
  rw [language_rule h, mem_sum_iff]
  constructor
  · intro ⟨p, hp, ht⟩
    obtain ⟨piece, hpiece, rfl⟩ := List.mem_map.1 hp
    rw [language_word] at ht
    exact ⟨piece, hpiece, ht⟩
  · intro ⟨piece, hpiece, ht⟩
    refine ⟨_, List.mem_map_of_mem hpiece, ?_⟩
    rw [language_word]
    exact ht

/-! ## 3. The equations of the rules -/

/-- The texts of a reference. -/
def phrase (g : Grammar) (name : String) : Language Char :=
  g.language [Starter.ref name]

namespace HasStarterRules

/-- A category is read from its text. -/
theorem phrase_category (h : g.HasStarterRules v) (hv : v.Plain) {name : String} {text : Text}
    (ha : ⟨name.toList, text⟩ ∈ v.assignments) :
    g.phrase name = slot g.config.separator text := by
  have htext : text ∈ v.assignments.map Assignment.text :=
    List.mem_map_of_mem (f := Assignment.text) ha
  obtain ⟨hblank, hopen⟩ := hv text htext
  refine language_words ?_
  rw [h.get?_iff, ← Rule.ofText_of_words hblank hopen]
  exact .inr (List.mem_map_of_mem (f := fun a : Assignment => (a.name, Rule.ofText a.text)) ha)

/-- A rule with one alternative of two references. -/
theorem phrase_two (h : g.HasStarterRules v) {name a b : String}
    (hmem : (name.toList, ⟨[⟨[Starter.ref a, Starter.ref b]⟩]⟩) ∈ Starter.shapeRules) :
    g.phrase name = g.phrase a * g.phrase b := by
  unfold phrase Starter.ref
  rw [language_rule ((h.get?_iff _ _).2 (.inl hmem))]
  simp only [List.map_cons, List.map_nil, List.sum_cons, List.sum_nil, add_zero]
  exact language_cons g _ _

/-- A rule whose second alternative goes on after the first one. -/
theorem phrase_optional (h : g.HasStarterRules v) {name a b : String}
    (hmem : (name.toList, ⟨[⟨[Starter.ref a]⟩, ⟨[Starter.ref a, Starter.ref b]⟩]⟩) ∈
      Starter.shapeRules) :
    g.phrase name = g.phrase a * (1 + g.phrase b) := by
  unfold phrase Starter.ref
  rw [language_rule ((h.get?_iff _ _).2 (.inl hmem))]
  simp only [List.map_cons, List.map_nil, List.sum_cons, List.sum_nil, add_zero]
  rw [mul_add, mul_one]
  exact congrArg _ (language_cons g _ _)

/-- **The trees from the start yield the sentences of the pattern.** -/
theorem language_start (h : g.HasStarterRules v) (hv : v.Plain) :
    g.language [.nonterminal Starter.start] = v.sentences g.config.separator := by
  have article : g.phrase "article" = slot g.config.separator v.articles :=
    h.phrase_category hv (by simp [Vocabulary.assignments])
  have noun : g.phrase "noun" = slot g.config.separator v.nouns :=
    h.phrase_category hv (by simp [Vocabulary.assignments])
  have verb : g.phrase "verb" = slot g.config.separator v.verbs :=
    h.phrase_category hv (by simp [Vocabulary.assignments])
  have prep : g.phrase "prep" = slot g.config.separator v.preps :=
    h.phrase_category hv (by simp [Vocabulary.assignments])
  have cmplxNoun : g.phrase "cmplx-noun" = g.phrase "article" * g.phrase "noun" :=
    h.phrase_two (by decide)
  have prepPhrase : g.phrase "prep-phrase" = g.phrase "prep" * g.phrase "cmplx-noun" :=
    h.phrase_two (by decide)
  have nounPhrase : g.phrase "noun-phrase" = g.phrase "cmplx-noun" * (1 + g.phrase "prep-phrase") :=
    h.phrase_optional (by decide)
  have cmplxVerb : g.phrase "cmplx-verb" = g.phrase "verb" * (1 + g.phrase "noun-phrase") :=
    h.phrase_optional (by decide)
  have verbPhrase : g.phrase "verb-phrase" = g.phrase "cmplx-verb" * (1 + g.phrase "prep-phrase") :=
    h.phrase_optional (by decide)
  have start : g.phrase "start" = g.phrase "noun-phrase" * g.phrase "verb-phrase" :=
    h.phrase_two (by decide)
  show g.phrase "start" = _
  rw [start, verbPhrase, cmplxVerb, nounPhrase, prepPhrase, cmplxNoun, article, noun, verb, prep]
  exact phrases_eq_pattern _ _ _ _

end HasStarterRules

/-! ## 4. Sentences -/

namespace HasStarterRules

/-- Where every pick comes to an end, so does a sentence. -/
theorem exists_returns (h : g.HasStarterRules v) (hv : v.Plain) (hroom : g.Admits 0 7)
    {draws : Draws} (hd : draws.Settles) (pos : Nat) :
    ∃ t ∈ v.sentences g.config.separator, ∃ stop,
      g.Returns draws Starter.start pos (.ok (g.config.finish t)) stop := by
  obtain ⟨r, stop, hexpands, hcomplete⟩ :=
    (h.graded hv).exists_expands hd 7 0 _ pos g.below_start hroom
  rcases hcomplete with ⟨leaves, rfl⟩ | ⟨name, rule, hname, hnone, rfl⟩
  · have ht := hexpands.joined_mem_language
    rw [h.language_start hv] at ht
    exact ⟨_, ht, stop, (returns_iff_of_has h.has_start).2 ⟨_, hexpands, rfl⟩⟩
  · exact absurd hnone (h.alternatives hv hname)

/-- A script for every sentence. -/
theorem exists_script (h : g.HasStarterRules v) (hv : v.Plain) (hroom : g.Admits 0 7)
    (hlength : ∀ text ∈ v.texts, (text.splitOn alternativeMark).length < UInt64.size)
    {t : Text} (ht : t ∈ v.sentences g.config.separator) :
    ∃ script stop,
      g.Returns (.ofList script) Starter.start 0 (.ok (g.config.finish t)) stop := by
  rw [← h.language_start hv] at ht
  have hfits : ∀ f : g.Forest [.nonterminal Starter.start], g.Admits 0 f.nesting :=
    fun f => hroom.mono (f.nesting_le (h.graded hv) 7 g.below_start)
  obtain ⟨script, leaves, stop, rfl, hexpands⟩ :=
    exists_script_of_mem (h.pickable hv hlength) hfits ht
  exact ⟨script, stop, (returns_iff_of_has h.has_start).2 ⟨_, hexpands, rfl⟩⟩

end HasStarterRules

/-- **The starter grammar makes the sentences of the pattern, for every vocabulary of words.** Along
    each script the start comes to one of them, and each of them comes out along some script, where
    no category has more words than there are draws to tell them apart. -/
theorem starter_returns (hv : v.Plain) (config : Config)
    (hlimit : ∀ limit, config.maxDepth = some limit → 7 ≤ limit.toNat) :
    (starter {}).setWords v = starter v ∧
    (∀ script pos, ∃ t ∈ v.sentences config.separator, ∃ stop,
      ((starter v).setConfig config).Returns (.ofList script) Starter.start pos
        (.ok (config.finish t)) stop) ∧
    ((∀ text ∈ v.texts, (text.splitOn alternativeMark).length < UInt64.size) →
      ∀ t ∈ v.sentences config.separator, ∃ script stop,
        ((starter v).setConfig config).Returns (.ofList script) Starter.start 0
          (.ok (config.finish t)) stop) := by
  have hrules : ((starter v).setConfig config).HasStarterRules v :=
    (starter_rules v).setConfig config
  have hroom : ((starter v).setConfig config).Admits 0 7 := hlimit
  refine ⟨setWords_starter {} v, fun script pos => ?_, fun hlength t ht => ?_⟩
  · exact hrules.exists_returns hv hroom (Draws.settles_ofList script) pos
  · exact hrules.exists_script hv hroom hlength ht

/-- A vocabulary with a blank noun. -/
def drowsy : Vocabulary where
  nouns := "cat, ".toList
  verbs := "sleeps".toList
  preps := "on,under".toList
  articles := "the".toList

theorem starter_returns_drowsy :
    drowsy.Plain ∧ (∀ text ∈ drowsy.texts, (text.splitOn alternativeMark).length < UInt64.size) ∧
      ∃ script stop, ((starter drowsy).setConfig { maxDepth := some 7, trim := true }).Returns
        (.ofList script) Starter.start 0 (.ok "the cat sleeps on the".toList) stop := by
  have hplain : drowsy.Plain := by decide +kernel
  have hlength : ∀ text ∈ drowsy.texts, (text.splitOn alternativeMark).length < UInt64.size := by
    decide +kernel
  have article : "the ".toList ∈ slot [' '] drowsy.articles := ⟨"the".toList, by decide, by decide⟩
  have cat : "cat ".toList ∈ slot [' '] drowsy.nouns := ⟨"cat".toList, by decide, by decide⟩
  have blank : [] ∈ slot [' '] drowsy.nouns := ⟨" ".toList, by decide, by decide⟩
  have verb : "sleeps ".toList ∈ slot [' '] drowsy.verbs := ⟨"sleeps".toList, by decide, by decide⟩
  have prep : "on ".toList ∈ slot [' '] drowsy.preps := ⟨"on".toList, by decide, by decide⟩
  have skipped : ∀ l : Language Char, [] ∈ 1 + l :=
    fun l => (Language.mem_add _ _ _).2 (.inl Language.nil_mem_one)
  have place := Language.append_mem_mul (Language.append_mem_mul prep article) blank
  have ht : "the ".toList ++ "cat ".toList ++ [] ++ "sleeps ".toList ++ [] ++
      ("on ".toList ++ "the ".toList ++ []) ∈ drowsy.sentences [' '] :=
    Language.append_mem_mul (Language.append_mem_mul (Language.append_mem_mul
      (Language.append_mem_mul (Language.append_mem_mul article cat) (skipped _)) verb) (skipped _))
      ((Language.mem_add 1 _ _).2 (.inr place))
  obtain ⟨-, -, hscript⟩ := starter_returns hplain { maxDepth := some 7, trim := true }
    fun limit hl => by cases hl; decide
  exact ⟨hplain, hlength, hscript hlength _ ht⟩

end Grammar

end Sentences
