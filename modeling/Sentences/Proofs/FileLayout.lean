import Sentences.Proofs.FileAppend

/-!
# What the layout of a rules file comes to

Files one after the other are read as one, and the first bad line of both is the fault, under its
number in both. What a file says does not depend on its idle lines, blank ones and notes, which may
stand anywhere, nor on the white space at the ends of its lines, such as a carriage return in front
of each line feed.

* `RulesFile.ofLines_filter_eq_ok_iff`: idle lines move the numbers of lines and nothing else;
* `RulesFile.ofText_congr`: white space at the ends of lines moves nothing at all;
* `Text.trimEnd_lines_withReturns`: carriage returns are such white space;
* `RulesFile.ofText_layout`: what follows for a file.
-/

namespace Sentences

/-! ## 1. Carriage returns -/

namespace Text

/-- The text with a carriage return in front of every line feed. -/
def withReturns (t : Text) : Text :=
  t.flatMap fun c => if c = '\n' then ['\r', '\n'] else [c]

/-- What stands in front of a text is kept up to its own white space. -/
theorem trimEnd_cons (c : Char) (t : Text) : trimEnd (c :: t) = trimEnd (c :: t.trimEnd) := by
  obtain ⟨after, hblank, hafter⟩ := t.exists_trimEnd_append
  calc trimEnd (c :: t) = trimEnd ((c :: t.trimEnd) ++ after) := by rw [List.cons_append, hafter]
    _ = trimEnd (c :: t.trimEnd) := trimEnd_append_blank hblank _

/-- Lines that agree up to the white space at their ends still do behind one more character. -/
theorem trimEnd_lines_cons {c : Char} (hc : c ≠ '\n') {s t : Text}
    (h : s.lines.map trimEnd = t.lines.map trimEnd) :
    (lines (c :: s)).map trimEnd = (lines (c :: t)).map trimEnd := by
  cases hs : s.lines with
  | nil =>
    rw [hs, List.map_nil, eq_comm, List.map_eq_nil_iff, lines_eq_nil_iff] at h
    rw [h, (lines_eq_nil_iff s).1 hs]
  | cons line more =>
    cases ht : t.lines with
    | nil =>
      rw [hs, ht] at h
      cases h
    | cons other rest =>
      rw [hs, ht, List.map_cons, List.map_cons, List.cons.injEq] at h
      obtain ⟨hline, hmore⟩ := h
      rw [lines_cons hc hs, lines_cons hc ht, List.map_cons, List.map_cons, hmore, trimEnd_cons,
        hline, ← trimEnd_cons]

/-- **A carriage return in front of a line feed is white space at the end of a line.** -/
theorem trimEnd_lines_withReturns (t : Text) :
    (withReturns t).lines.map trimEnd = t.lines.map trimEnd := by
  induction t with
  | nil => rfl
  | cons c rest ih =>
    by_cases hc : c = '\n'
    · subst hc
      have hreturn : withReturns ('\n' :: rest) = '\r' :: '\n' :: withReturns rest := rfl
      have hended : trimEnd ['\r'] = trimEnd [] := by decide
      rw [hreturn, lines_cons (by decide) (lines_lineFeed _), lines_lineFeed, List.map_cons,
        List.map_cons, ih, hended]
    · have hkeep : withReturns (c :: rest) = c :: withReturns rest := by
        unfold withReturns
        rw [List.flatMap_cons, if_neg hc, List.singleton_append]
      rw [hkeep]
      exact trimEnd_lines_cons hc ih

end Text

namespace RulesFile

/-! ## 2. Lines that say nothing -/

/-- A line with nothing but white space, or with `#` as its first character that is none. -/
def Idle (line : Text) : Prop :=
  line.trim = [] ∨ line.trim.head? = some '#'

instance : DecidablePred Idle :=
  fun line => inferInstanceAs (Decidable (line.trim = [] ∨ line.trim.head? = some '#'))

theorem itemOf?_of_idle {line : Text} (h : Idle line) : itemOf? line = some .nothing :=
  if_pos h

theorem itemOf?_of_not_idle {line : Text} (h : ¬ Idle line) : itemOf? line =
    match startName? line.trim with
    | some name => some (.start name)
    | none => (Assignment.ofLine? line.trim).map .rule :=
  if_neg h

theorem map_cons_nothing (r : Except BadLine RulesFile) : r.map (cons .nothing) = r := by
  cases r <;> rfl

/-- **Idle lines make no difference to what is read**, nor does the number of the first line. -/
theorem ofLines_filter_eq_ok_iff (ls : List Text) (file : RulesFile) (m n : Nat) :
    ofLines m (ls.filter (¬ Idle ·)) = .ok file ↔ ofLines n ls = .ok file := by
  induction ls generalizing file m n with
  | nil => exact Iff.rfl
  | cons line rest ih =>
    by_cases hidle : Idle line
    · rw [List.filter_cons_of_neg (by simpa using hidle),
        ofLines_cons_of_some (itemOf?_of_idle hidle), map_cons_nothing]
      exact ih file m (n + 1)
    · rw [List.filter_cons_of_pos (by simpa using hidle)]
      cases hitem : itemOf? line with
      | none =>
        rw [ofLines_cons_of_none hitem, ofLines_cons_of_none hitem]
        simp
      | some item =>
        rw [ofLines_cons_of_some hitem, ofLines_cons_of_some hitem, map_eq_ok_iff, map_eq_ok_iff]
        exact exists_congr fun said => and_congr_left' (ih said (m + 1) (n + 1))

/-! ## 3. White space at the ends of lines -/

theorem ofLines_map_trim (ls : List Text) (n : Nat) :
    ofLines n (ls.map Text.trim) = ofLines n ls := by
  induction ls generalizing n with
  | nil => rfl
  | cons line rest ih =>
    rw [List.map_cons, ofLines, ofLines, ih, Text.trim_of_tight line.tight_trim]

/-- **White space at the ends of lines makes no difference**, to the fault of a file neither. -/
theorem ofText_congr {s t : Text} (h : s.lines.map Text.trim = t.lines.map Text.trim) :
    ofText s = ofText t := by
  unfold ofText
  rw [← ofLines_map_trim, h, ofLines_map_trim]

theorem ofText_withReturns (t : Text) : ofText t.withReturns = ofText t := by
  have htrim : ∀ ls : List Text, (ls.map Text.trimEnd).map Text.trim = ls.map Text.trim := by
    intro ls
    rw [List.map_map]
    exact List.map_congr_left fun line _ => Text.trim_trimEnd line
  refine ofText_congr ?_
  rw [← htrim, Text.trimEnd_lines_withReturns, htrim]

/-! ## 4. Files -/

/-- **A file is read part by part.** Of two parts, the first of which ends its last line, the first
    bad line is the fault, numbered on from one part to the next; without one, both say what each of
    them says. So neither idle lines, wherever they stand, nor carriage returns at the ends of lines
    change what an accepted file says. -/
theorem ofText_layout :
    (∀ a b : Text, a.LinesEnded →
      (∀ bad, ofText a = .error bad → ofText (a ++ b) = .error bad) ∧
      (∀ fa bad, ofText a = .ok fa → ofText b = .error bad →
        ofText (a ++ b) = .error ⟨bad.number + a.lines.length, bad.text⟩) ∧
      ∀ fa fb, ofText a = .ok fa → ofText b = .ok fb →
        ofText (a ++ b) = .ok ⟨fb.start.or fa.start, fa.rules ++ fb.rules⟩) ∧
    (∀ (s t : Text) (file : RulesFile), s.lines.filter (¬ Idle ·) = t.lines.filter (¬ Idle ·) →
      ofText t = .ok file → ofText s = .ok file) ∧
    ∀ (t : Text) (file : RulesFile), ofText t = .ok file → ofText t.withReturns = .ok file := by
  refine ⟨fun a b h => ?_, fun s t file hlines ht => ?_, fun t file ht => ?_⟩
  · have happend := ofText_append h b
    refine ⟨fun bad ha => ?_, fun fa bad ha hb => ?_, fun fa fb ha hb => ?_⟩
    · rw [happend, ha]
    · rw [happend, ha, hb, Nat.add_comm]
    · rw [happend, ha, hb]
      rfl
  · unfold ofText at ht ⊢
    rw [← ofLines_filter_eq_ok_iff _ _ 1 1] at ht ⊢
    rw [hlines, ht]
  · rw [ofText_withReturns, ht]

/-- A start symbol and its rule. -/
def upperPart : Text :=
  "@start = <a>\na = x, <b>\n".toList

/-- Another start symbol and its rule, without an end of the last line. -/
def lowerPart : Text :=
  "@start = b\n<b> ::= y".toList

/-- The same, with notes and blank lines around them. -/
def annotatedPart : Text :=
  "# b\n@start = b\n \t\n\n<b> ::= y\n  #".toList

theorem ofText_layout_parts :
    upperPart.LinesEnded ∧
    ofText upperPart = .ok ⟨some "a".toList, [⟨"a".toList, "x, <b>".toList⟩]⟩ ∧
    ofText lowerPart = .ok ⟨some "b".toList, [⟨"b".toList, "y".toList⟩]⟩ ∧
    ofText (upperPart ++ lowerPart) =
      .ok ⟨some "b".toList, [⟨"a".toList, "x, <b>".toList⟩, ⟨"b".toList, "y".toList⟩]⟩ ∧
    ofText (upperPart ++ "?\n".toList) = .error ⟨3, "?".toList⟩ ∧
    ofText ("?\n".toList ++ lowerPart) = .error ⟨1, "?".toList⟩ ∧
    annotatedPart.lines.filter (¬ Idle ·) = lowerPart.lines.filter (¬ Idle ·) ∧
    ofText annotatedPart = .ok ⟨some "b".toList, [⟨"b".toList, "y".toList⟩]⟩ ∧
    ofText (Text.withReturns lowerPart) = .ok ⟨some "b".toList, [⟨"b".toList, "y".toList⟩]⟩ := by
  have hended : upperPart.LinesEnded := Text.linesEnded_of_getLast? (by decide +kernel)
  have hbadEnded : Text.LinesEnded "?\n".toList := Text.linesEnded_of_getLast? (by decide +kernel)
  have hupper : ofText upperPart =
      .ok ⟨some "a".toList, [⟨"a".toList, "x, <b>".toList⟩]⟩ := by decide +kernel
  have hlower : ofText lowerPart =
      .ok ⟨some "b".toList, [⟨"b".toList, "y".toList⟩]⟩ := by decide +kernel
  have hbad : ofText "?\n".toList = .error ⟨1, "?".toList⟩ := by decide +kernel
  have hidle : annotatedPart.lines.filter (¬ Idle ·) = lowerPart.lines.filter (¬ Idle ·) := by
    decide +kernel
  exact ⟨hended, hupper, hlower, (ofText_layout.1 _ _ hended).2.2 _ _ hupper hlower,
    (ofText_layout.1 _ _ hended).2.1 _ _ hupper hbad, (ofText_layout.1 _ _ hbadEnded).1 _ hbad,
    hidle, ofText_layout.2.1 _ _ _ hidle hlower, ofText_layout.2.2 _ _ hlower⟩

end RulesFile

end Sentences
