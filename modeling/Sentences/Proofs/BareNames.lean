import Sentences.Proofs.AssignmentForm
import Sentences.RulesFile
import Sentences.Vocabulary

/-!
# Names that are spelled bare

A spelling without white space and brackets is the name that it stands for. The names that
assignments and start directives give are spelled so, and those of the starter grammar are.

* `bareName_inBrackets`: a name in its brackets stands for that name, whatever is in it;
* `bareName_eq_self_iff`: a name stands for itself exactly when it has no white space at its ends
  and is not in brackets as a whole;
* `bareName_of_isStartChar`: a spelling without white space and brackets is its own bare name;
* `Assignment.bareName_name`, `RulesFile.bareName_startName`: so is every name that is read;
* `Starter.bareName_of_mem_names`, `Vocabulary.bareName_of_mem_categories`: and every name of the
  starter grammar, with the four lexical categories among them.
-/

namespace Sentences

namespace Text

/-- What a character of a start directive's name is not. -/
theorem isStartChar_iff (c : Char) : RulesFile.isStartChar c = true ↔
    isBlank c = false ∧ c ≠ openMark ∧ c ≠ closeMark := by
  simp only [RulesFile.isStartChar, Bool.and_eq_true, Bool.not_eq_true', bne_iff_ne, ne_eq,
    and_assoc]

/-- A character of an assignment's name may also stand in a start directive's. -/
theorem isStartChar_of_isNameChar {c : Char} (h : isNameChar c = true) :
    RulesFile.isStartChar c = true := by
  obtain ⟨hblank, hopen, hclose, -, -⟩ := (isNameChar_iff c).1 h
  exact (isStartChar_iff c).2 ⟨hblank, hopen, hclose⟩

theorem bracketed?_eq_some_iff {t name : Text} :
    bracketed? t = some name ↔ t = name.inBrackets := by
  constructor
  · intro h
    cases t with
    | nil => cases h
    | cons c rest =>
      rw [bracketed?] at h
      by_cases hboth : c = openMark ∧ rest.getLast? = some closeMark
      · obtain ⟨hopen, hclose⟩ := hboth
        rw [if_pos ⟨hopen, hclose⟩] at h
        obtain ⟨before, rfl⟩ := List.getLast?_eq_some_iff.1 hclose
        rw [List.dropLast_concat] at h
        rw [hopen, Option.some.inj h]
        rfl
      · rw [if_neg hboth] at h
        cases h
  · intro h
    rw [h, bracketed?_inBrackets]

theorem tight_inBrackets (name : Text) : name.inBrackets.Tight := by
  refine ⟨fun c hc => ?_, fun c hc => ?_⟩
  · cases hc
    decide
  · unfold inBrackets at hc
    rw [List.getLast?_append] at hc
    cases hc
    decide

/-- **A name in its brackets stands for that name.** -/
theorem bareName_inBrackets (name : Text) : name.inBrackets.bareName = name := by
  unfold bareName
  rw [trim_of_tight (tight_inBrackets name), bracketed?_inBrackets]
  rfl

/-- A name that stands for itself: no white space at its ends, and not in brackets as a whole. -/
def Bare (t : Text) : Prop :=
  t.Tight ∧ ∀ name : Text, t ≠ name.inBrackets

/-- **Only bare names stand for themselves**: the others lose their ends. -/
theorem bareName_eq_self_iff (t : Text) : t.bareName = t ↔ t.Bare := by
  constructor
  · intro h
    cases hb : bracketed? t.trim with
    | some name =>
      -- the name lacks the two brackets
      have hname : t.bareName = name := by
        unfold bareName
        rw [hb]
        rfl
      obtain ⟨before, after, -, -, ht⟩ := t.exists_padding
      have hlength := congrArg List.length ht
      rw [bracketed?_eq_some_iff.1 hb, ← hname, h] at hlength
      simp only [inBrackets, List.cons_append, List.length_append, List.length_cons,
        List.length_nil] at hlength
      omega
    | none =>
      have htrim : t.trim = t := by
        unfold bareName at h
        rw [hb] at h
        exact h
      refine ⟨htrim ▸ t.tight_trim, fun name he => ?_⟩
      rw [htrim, he, bracketed?_inBrackets] at hb
      cases hb
  · rintro ⟨htight, hbrackets⟩
    have hnone : bracketed? t = none := by
      cases hb : bracketed? t with
      | none => rfl
      | some name => exact absurd (bracketed?_eq_some_iff.1 hb) (hbrackets name)
    unfold bareName
    rw [trim_of_tight htight, hnone]
    rfl

/-- **A spelling without white space and brackets is its own bare name.** -/
theorem bareName_of_isStartChar {t : Text} (h : ∀ c ∈ t, RulesFile.isStartChar c = true) :
    t.bareName = t := by
  have hblank : ∀ c ∈ t, isBlank c = false := fun c hc => ((isStartChar_iff c).1 (h c hc)).1
  have htight : t.Tight :=
    ⟨fun c hc => hblank c (List.mem_of_head? hc), fun c hc => hblank c (List.mem_of_getLast? hc)⟩
  have hopen : openMark ∉ t := fun hm => ((isStartChar_iff _).1 (h _ hm)).2.1 rfl
  refine (bareName_eq_self_iff t).2 ⟨htight, fun name he => hopen ?_⟩
  rw [he]
  exact List.mem_cons_self

end Text

/-- A name that can stand in an assignment can stand in a start directive. -/
theorem Text.Nameable.isStartChar {t : Text} (h : t.Nameable) :
    ∀ c ∈ t, RulesFile.isStartChar c = true :=
  fun c hc => Text.isStartChar_of_isNameChar (h.isNameChar c hc)

theorem Text.Nameable.bareName {t : Text} (h : t.Nameable) : t.bareName = t :=
  Text.bareName_of_isStartChar h.isStartChar

theorem Assignment.nameable_name {line : Text} {a : Assignment} (h : ofLine? line = some a) :
    a.name.Nameable := by
  obtain ⟨f, -, rfl⟩ := exists_form h
  exact f.name_nameable

/-- **The names of assignments are spelled bare.** -/
theorem Assignment.bareName_name {line : Text} {a : Assignment} (h : ofLine? line = some a) :
    a.name.bareName = a.name :=
  (nameable_name h).bareName

namespace RulesFile

/-- The name of a start directive has only the characters that it may have, and at least one. -/
theorem name_of_startName? {line name : Text} (h : startName? line = some name) :
    name ≠ [] ∧ ∀ c ∈ name, isStartChar c = true := by
  unfold startName? at h
  dsimp only at h
  split at h
  · cases h
  · split at h
    · cases h
    · split at h
      · rename_i hok
        cases h
        exact ⟨hok.1, fun c hc => List.all_eq_true.1 List.all_takeWhile c hc⟩
      · cases h

/-- **The names of start directives are spelled bare.** -/
theorem bareName_startName {line name : Text} (h : startName? line = some name) :
    name.bareName = name :=
  Text.bareName_of_isStartChar (name_of_startName? h).2

end RulesFile

/-- **The names of the starter grammar are spelled bare.** -/
theorem Starter.bareName_of_mem_names : ∀ name ∈ names, name.bareName = name := by decide +kernel

namespace Vocabulary

/-- The names of the four lexical categories. -/
def categories : List Text :=
  ["noun", "verb", "prep", "article"].map String.toList

theorem categories_subset_names : categories ⊆ Starter.names := by decide

theorem nodup_categories : categories.Nodup := by decide

theorem map_name (v : Vocabulary) : v.assignments.map Assignment.name = categories := rfl

theorem name_mem_categories {v : Vocabulary} {a : Assignment} (h : a ∈ v.assignments) :
    a.name ∈ categories := by
  rw [← v.map_name]
  exact List.mem_map_of_mem h

theorem bareName_of_mem_categories {name : Text} (h : name ∈ categories) : name.bareName = name :=
  Starter.bareName_of_mem_names name (categories_subset_names h)

end Vocabulary

end Sentences
