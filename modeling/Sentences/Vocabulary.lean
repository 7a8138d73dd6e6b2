import Sentences.Assignment

/-!
# The starter grammar and its vocabulary

The starter grammar makes short English sentences. Six rules give the shape of a sentence and
refer to four lexical categories, whose words are a vocabulary: one rule text for each category.
Listings of any grammar begin with the ten names of the starter grammar.
-/

namespace Sentences

/-- The words of the four lexical categories, each a rule text. -/
structure Vocabulary where
  nouns : Text := "girl, dog, boy".toList
  verbs : Text := "eats, attacks, launches".toList
  preps : Text := "around, over, under".toList
  articles : Text := "the, a".toList
  deriving DecidableEq

/-- The vocabulary as assignments to the four categories. -/
def Vocabulary.assignments (v : Vocabulary) : List Assignment :=
  [⟨"noun".toList, v.nouns⟩, ⟨"verb".toList, v.verbs⟩, ⟨"prep".toList, v.preps⟩,
   ⟨"article".toList, v.articles⟩]

namespace Starter

/-- The symbol at which sentences start. -/
def start : Text := "start".toList

/-- The shape of a sentence, whatever the vocabulary. -/
def shape : List Assignment :=
  [⟨start, "<noun-phrase><verb-phrase>".toList⟩,
   ⟨"noun-phrase".toList, "<cmplx-noun>,<cmplx-noun><prep-phrase>".toList⟩,
   ⟨"verb-phrase".toList, "<cmplx-verb>,<cmplx-verb><prep-phrase>".toList⟩,
   ⟨"prep-phrase".toList, "<prep><cmplx-noun>".toList⟩,
   ⟨"cmplx-noun".toList, "<article><noun>".toList⟩,
   ⟨"cmplx-verb".toList, "<verb>,<verb><noun-phrase>".toList⟩]

/-- The rules of the starter grammar with the given vocabulary. -/
def assignments (v : Vocabulary) : List Assignment :=
  shape ++ v.assignments

/-- The names of the starter grammar, in the order of its rules. -/
def names : List Text :=
  (assignments {}).map Assignment.name

/-- The rule texts of the starter grammar with its own words. -/
def texts : List Text :=
  (assignments {}).map Assignment.text

end Starter

end Sentences
