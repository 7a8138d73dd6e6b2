import Sentences.Proofs.LoneLine

/-!
# Lines of a rules file in their usual form

A start symbol and an assignment are usually written `@start = <name>` and `<name> ::= text`.

* `RulesFile.itemOf?_startLine`: such a directive is read back;
* `Assignment.itemOf?_toLine`: so is such an assignment, with its text trimmed; whatever the text
  holds, short of a line feed, is not taken for anything else.
-/

namespace Sentences

open RulesFile (itemOf? isStartChar startWord startName? afterWord?)

/-- The line of a start directive. -/
def RulesFile.startLine (name : Text) : Text :=
  startWord ++ " = ".toList ++ name.inBrackets

/-- The line of an assignment. -/
def Assignment.toLine (a : Assignment) : Text :=
  a.name.inBrackets ++ " ::= ".toList ++ a.text

/-! ## 1. The parts of a line -/

theorem Text.skipMark_cons (mark : Char) (t : Text) : Text.skipMark mark (mark :: t) = t :=
  if_pos rfl

theorem RulesFile.afterWord?_append (word t : Text) : afterWord? word (word ++ t) = some t := by
  unfold afterWord?
  rw [if_pos (by simp), List.drop_left]

/-! ## 2. Assignments -/

theorem Text.Nameable.notMem_inBrackets {t : Text} (h : t.Nameable) : '\n' ∉ t.inBrackets := by
  have hname : '\n' ∉ t := by
    intro hm
    have hblank := (h.2 _ hm).1
    revert hblank
    decide
  unfold Text.inBrackets
  simp [openMark, closeMark, hname]

/-- The line of an assignment starts with a bracket, so it is nothing else. -/
theorem Assignment.plain_toLine (a : Assignment) : RulesFile.Plain a.toLine := by
  have hline : a.toLine = openMark :: (a.name ++ [closeMark] ++ " ::= ".toList ++ a.text) := by
    unfold toLine Text.inBrackets
    simp
  have htrim := Text.trim_cons (c := openMark) (by decide)
    (a.name ++ [closeMark] ++ " ::= ".toList ++ a.text)
  rw [← hline] at htrim
  refine ⟨?_, ?_⟩
  · rintro (hnil | hnote)
    · rw [htrim] at hnil
      cases hnil
    · rw [htrim] at hnote
      cases hnote
  · rw [htrim]
    rfl

/-- The form in which an assignment is usually written. -/
def Assignment.usualForm (a : Assignment) (hname : a.name.Nameable) (htext : '\n' ∉ a.text) :
    Assignment.Form where
  lead := []
  opening := [openMark]
  name := a.name
  closing := [closeMark]
  gap := [' ']
  sign := "::=".toList
  padding := [' ']
  body := a.text
  lead_blank := rfl
  opening_mark := .inr rfl
  name_nameable := hname
  closing_mark := .inr rfl
  gap_blank := by decide
  sign_spelling := .inl rfl
  padding_blank := by decide
  body_line := htext

section Line

variable {a : Assignment} (hname : a.name.Nameable) (htext : '\n' ∉ a.text)
include hname htext

theorem Assignment.ofLine?_toLine : ofLine? a.toLine = some ⟨a.name, a.text.trim⟩ := by
  have hline : (a.usualForm hname htext).line = a.toLine := by
    unfold Form.line usualForm toLine Text.inBrackets
    simp
  rw [← hline]
  exact (a.usualForm hname htext).ofLine?_line

theorem Assignment.notMem_toLine : '\n' ∉ a.toLine := by
  have hsign : '\n' ∉ " ::= ".toList := by decide +kernel
  unfold toLine
  rw [List.mem_append, List.mem_append]
  exact not_or.2 ⟨not_or.2 ⟨hname.notMem_inBrackets, hsign⟩, htext⟩

/-- **An assignment is read back from its line**, with its text trimmed. -/
theorem Assignment.itemOf?_toLine : itemOf? a.toLine = some (.rule ⟨a.name, a.text.trim⟩) := by
  rw [RulesFile.itemOf?_of_plain (notMem_toLine hname htext) a.plain_toLine,
    ofLine?_toLine hname htext]
  rfl

end Line

/-! ## 3. Start directives -/

theorem RulesFile.startName?_startLine {name : Text} (hne : name ≠ [])
    (hname : ∀ c ∈ name, isStartChar c = true) : startName? (startLine name) = some name := by
  have hclose : ∀ c, [closeMark].head? = some c → isStartChar c = false := by
    intro c hc
    cases hc
    decide
  obtain ⟨htake, hdrop⟩ := Text.span_append hname hclose
  have hline : startLine name =
      startWord ++ (' ' :: '=' :: ' ' :: openMark :: (name ++ [closeMark])) := by
    unfold startLine Text.inBrackets
    simp
  have hvalue : afterWord? ['='] ('=' :: ' ' :: openMark :: (name ++ [closeMark])) =
      some (' ' :: openMark :: (name ++ [closeMark])) := afterWord?_append ['='] _
  unfold startName?
  rw [hline, afterWord?_append]
  dsimp only
  rw [Text.trimStart_space, Text.trimStart_cons (by decide), hvalue]
  dsimp only
  rw [Text.trimStart_space, Text.trimStart_cons (by decide), Text.skipMark_cons, htake, hdrop,
    Text.skipMark_cons, if_pos ⟨hne, rfl⟩]

/-- **A start directive is read back from its line.** -/
theorem RulesFile.itemOf?_startLine {name : Text} (hne : name ≠ [])
    (hname : ∀ c ∈ name, isStartChar c = true) :
    itemOf? (startLine name) = some (.start name) := by
  have htrim : (startLine name).trim = startLine name := by
    refine Text.trim_of_tight ⟨fun c hc => ?_, fun c hc => ?_⟩
    · cases hc
      decide
    · unfold startLine Text.inBrackets at hc
      rw [List.getLast?_append, List.getLast?_append] at hc
      cases hc
      decide
  have hidle : ¬ Idle (startLine name) := by
    rintro (hnil | hnote)
    · rw [htrim] at hnil
      cases hnil
    · rw [htrim] at hnote
      cases hnote
  rw [itemOf?_of_not_idle hidle, htrim, startName?_startLine hne hname]

end Sentences
