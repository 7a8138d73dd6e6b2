import Sentences.Proofs.RuleText

/-!
# Texts that are read alike

Reading a text forgets the white space around its alternatives and nothing else.

* `Production.ofText_eq_iff`: an alternative is read as the one normal list of symbols that makes up
  its trimmed text;
* `Rule.pieces`: the trimmed pieces of a rule text, which decide what it is read as
  (`Rule.ofText_eq_ofPieces`) and can be told from it (`Rule.pieces_eq_toTexts`);
* `Rule.ofText_normal_form`: so two texts are read as one rule exactly when their trimmed pieces are
  the same.
-/

namespace Sentences

/-- **An alternative is read as the normal symbols that make up its trimmed text**, and no other
    production has such symbols. -/
theorem Production.ofText_eq_iff (t : Text) (p : Production) :
    ofText t = p ↔ Symbol.Normal p.symbols ∧ p.toText = t.trim := by
  obtain ⟨symbols⟩ := p
  unfold ofText
  rw [mk.injEq]
  exact Symbol.scan_eq_iff t.trim symbols

namespace Rule

/-- The pieces between the commas of a text, trimmed. -/
def pieces (t : Text) : List Text :=
  (t.splitOn alternativeMark).map Text.trim

/-- A blank text has a single piece, which is empty, and no other text has. -/
theorem pieces_eq_blank_iff (t : Text) : pieces t = [[]] ↔ t.allBlank = true := by
  unfold pieces
  constructor
  · intro h
    obtain ⟨piece, hsplit, hpiece⟩ := List.map_eq_singleton_iff.1 h
    rw [← eq_of_splitOn_eq_singleton hsplit]
    exact (Text.trim_eq_nil_iff piece).1 hpiece
  · intro h
    rw [List.splitOn_eq_singleton (alternativeMark_notMem h), List.map_singleton,
      (Text.trim_eq_nil_iff t).2 h]

/-- The trimmed pieces of a text decide what it is read as. -/
theorem ofText_eq_ofPieces (t : Text) :
    ofText t = if pieces t = [[]] then ⟨[]⟩ else ⟨(pieces t).map fun p => ⟨Symbol.scan p⟩⟩ := by
  unfold ofText
  by_cases hblank : t.allBlank = true
  · rw [if_pos hblank, if_pos ((pieces_eq_blank_iff t).2 hblank)]
  · rw [if_neg hblank, if_neg fun h => hblank ((pieces_eq_blank_iff t).1 h)]
    unfold pieces
    rw [List.map_map]
    rfl

/-- And they can be told from it: they are the texts of the alternatives. -/
theorem pieces_eq_toTexts (t : Text) :
    pieces t = if (ofText t).productions = [] then [[]]
      else (ofText t).productions.map Production.toText := by
  unfold ofText
  by_cases hblank : t.allBlank = true
  · rw [if_pos hblank, if_pos rfl, (pieces_eq_blank_iff t).2 hblank]
  · have hne : (t.splitOn alternativeMark).map Production.ofText ≠ [] :=
      fun h => List.splitOn_ne_nil alternativeMark t (List.map_eq_nil_iff.1 h)
    rw [if_neg hblank, if_neg hne, List.map_map]
    exact List.map_congr_left fun piece _ => (Production.toText_ofText piece).symm

theorem ofText_eq_ofText_iff (s t : Text) : ofText s = ofText t ↔ pieces s = pieces t := by
  constructor
  · intro h
    rw [pieces_eq_toTexts, pieces_eq_toTexts, h]
  · intro h
    rw [ofText_eq_ofPieces, ofText_eq_ofPieces, h]

/-- **What is read is a normal form.** An alternative is read as the one list of symbols that is
    normal and makes up the trimmed text, and two rule texts are read as the same rule exactly when
    they have the same trimmed pieces. -/
theorem ofText_normal_form :
    (∀ (t : Text) (p : Production),
      Production.ofText t = p ↔ Symbol.Normal p.symbols ∧ p.toText = t.trim) ∧
    ∀ s t : Text, ofText s = ofText t ↔
      (s.splitOn alternativeMark).map Text.trim = (t.splitOn alternativeMark).map Text.trim :=
  ⟨Production.ofText_eq_iff, ofText_eq_ofText_iff⟩

/-- White space around commas is forgotten; a comma with nothing behind it is not. -/
example : ofText " a ,\t<b> c".toList = ofText "a, <b> c ".toList ∧
    ofText "a".toList ≠ ofText "a,".toList := by
  rw [ne_eq, ofText_eq_ofText_iff, ofText_eq_ofText_iff]
  decide +kernel

end Rule

end Sentences
