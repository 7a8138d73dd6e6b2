import Sentences.Grammar.Edit
import Sentences.Proofs.AssignmentForm
import Sentences.Proofs.FileLayout

/-!
# A line by itself and in a file

An assignment may be given by itself, as it stands, or as a line of a rules file, which is trimmed
and may be something else. Short of that, both are the same.

* `RulesFile.itemOf?_of_plain`: a line that is nothing else is read as the assignment that it is by
  itself;
* `RulesFile.ofText_of_lines`: and so is a file with no other line;
* `Grammar.lone_line`: so both write the same rule, or both are refused.
-/

namespace Sentences

namespace RulesFile

/-- A line that may only be an assignment: it is not idle, and no start directive. -/
structure Plain (line : Text) : Prop where
  not_idle : ¬ Idle line
  no_directive : startName? line.trim = none

instance : DecidablePred Plain := fun line =>
  decidable_of_iff (¬ Idle line ∧ startName? line.trim = none)
    ⟨fun h => ⟨h.1, h.2⟩, fun h => ⟨h.not_idle, h.no_directive⟩⟩

variable {line : Text}

theorem Plain.ne_nil (h : Plain line) : line ≠ [] := by
  rintro rfl
  exact h.not_idle (.inl rfl)

/-- **A line that may only be an assignment is read as the one it is by itself.** -/
theorem itemOf?_of_plain (hline : '\n' ∉ line) (h : Plain line) :
    itemOf? line = (Assignment.ofLine? line).map .rule := by
  rw [itemOf?_of_not_idle h.not_idle, h.no_directive]
  dsimp only
  rw [Assignment.ofLine?_trim hline]

/-- **So is a file that has no other line.** -/
theorem ofText_of_lines {t : Text} (ht : t.lines = [line]) (hline : '\n' ∉ line)
    (h : Plain line) : ofText t =
      match Assignment.ofLine? line with
      | none => .error ⟨1, line.trim⟩
      | some a => .ok ⟨none, [a]⟩ := by
  have hitem := itemOf?_of_plain hline h
  unfold ofText
  rw [ht]
  cases ha : Assignment.ofLine? line with
  | none =>
    rw [ha] at hitem
    exact ofLines_cons_of_none hitem 1 []
  | some a =>
    rw [ha] at hitem
    exact ofLines_cons_of_some hitem 1 []

end RulesFile

namespace Grammar

open RulesFile (Plain)

/-- A file that makes one assignment, and nothing else, writes one rule. -/
theorem applyFile_of_ofText {t : Text} {a : Assignment}
    (h : RulesFile.ofText t = .ok ⟨none, [a]⟩) (g : Grammar) :
    g.applyFile (.ok t) = .ok (g.setRule a) := by
  unfold applyFile RulesFile.ofContents
  dsimp only
  rw [h]
  rfl

/-- **An assignment means by itself what it means as the line of a file**, whether this line is
    ended or not: the one is accepted if and only if the other is, and they write the same rule. -/
theorem lone_line {line : Text} (hline : '\n' ∉ line) (h : Plain line) :
    (∀ a, RulesFile.ofText line = .ok ⟨none, [a]⟩ ↔ Assignment.ofText line = .ok a) ∧
    ((∀ a, Assignment.ofText line ≠ .ok a) →
      RulesFile.ofText line = .error ⟨1, line.trim⟩ ∧
        Assignment.ofText line = .error (.text (.assignment line))) ∧
    ∀ (g : Grammar) (a : Assignment), Assignment.ofText line = .ok a →
      g.applyFile (.ok line) = .ok (g.setRule a) ∧
        g.applyFile (.ok (line ++ ['\n'])) = .ok (g.setRule a) := by
  have hopen := RulesFile.ofText_of_lines (Text.lines_of_notMem hline h.ne_nil) hline h
  have hended := RulesFile.ofText_of_lines (Text.lines_line hline) hline h
  cases ha : Assignment.ofLine? line with
  | none =>
    have hself := Assignment.ofText_of_none ha
    rw [ha] at hopen
    refine ⟨fun a => ?_, fun _ => ⟨hopen, hself⟩, fun g a hok => ?_⟩
    · rw [hopen, hself]
      simp
    · rw [hself] at hok
      cases hok
  | some b =>
    have hself := Assignment.ofText_of_some ha
    rw [ha] at hopen hended
    refine ⟨fun a => ?_, fun hnone => absurd hself (hnone b), fun g a hok => ?_⟩
    · rw [hopen, hself]
      simp
    · obtain rfl : b = a := Except.ok.inj (hself.symm.trans hok)
      exact ⟨applyFile_of_ofText hopen g, applyFile_of_ofText hended g⟩

/-- White space of several kinds around an assignment and in it, a carriage return at the end. -/
def spaciousLine : Text :=
  "\u2003<a>\u00a0::=\t@start = <b>, # \r".toList

theorem lone_line_spacious : '\n' ∉ spaciousLine ∧ Plain spaciousLine ∧
    Assignment.ofText spaciousLine = .ok ⟨"a".toList, "@start = <b>, #".toList⟩ ∧
    RulesFile.ofText spaciousLine = .ok ⟨none, [⟨"a".toList, "@start = <b>, #".toList⟩]⟩ ∧
    empty.applyFile (.ok (spaciousLine ++ ['\n'])) =
      .ok (empty.setRule ⟨"a".toList, "@start = <b>, #".toList⟩) ∧
    Plain " a:=b".toList ∧ RulesFile.ofText " a:=b".toList = .error ⟨1, "a:=b".toList⟩ := by
  have hline : '\n' ∉ spaciousLine := by decide +kernel
  have hplain : Plain spaciousLine := by decide +kernel
  have hread : Assignment.ofLine? spaciousLine = some ⟨"a".toList, "@start = <b>, #".toList⟩ := by
    decide +kernel
  obtain ⟨hboth, -, happly⟩ := lone_line hline hplain
  have hself := Assignment.ofText_of_some hread
  have hbad : Plain " a:=b".toList := by decide +kernel
  have hunread : Assignment.ofLine? " a:=b".toList = none := by decide +kernel
  have hrefused := (lone_line (by decide +kernel) hbad).2.1 fun a ha => by
    rw [Assignment.ofText_of_none hunread] at ha
    cases ha
  exact ⟨hline, hplain, hself, (hboth _).2 hself, (happly _ _ hself).2, hbad, hrefused.1⟩

end Grammar

end Sentences
