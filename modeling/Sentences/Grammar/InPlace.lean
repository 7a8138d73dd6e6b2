import Sentences.Grammar.Edit

/-!
# A rules file applied in place

The same edit as a program that changes the grammar step by step. What such a program has changed
when it fails stays changed, so that a file is applied as a whole or not at all has to be shown: the
contents are read to their end before the first rule is written.
-/

namespace Sentences.Grammar

/-- Reads the contents of a file, then writes its rules one by one and its start symbol. -/
def applyInPlace (contents : FileContents) : EStateM Failure Grammar Unit := do
  let file ← ofExcept (RulesFile.ofContents contents)
  file.rules.forM fun a => modify (·.setRule a)
  match file.start with
  | none => pure ()
  | some name => modify (·.setStart name)

/-- Rules that are written one by one are all written. -/
theorem forM_setRule (as : List Assignment) (g : Grammar) :
    (as.forM fun a => modify (·.setRule a) : EStateM Failure Grammar Unit) g =
      .ok () (g.setRules as) := by
  induction as generalizing g with
  | nil => rfl
  | cons a rest ih => exact ih (g.setRule a)

theorem applyInPlace_of_ok {contents : FileContents} {file : RulesFile}
    (h : RulesFile.ofContents contents = .ok file) (g : Grammar) :
    applyInPlace contents g = .ok () (g.applyRulesFile file) := by
  obtain ⟨start, rules⟩ := file
  unfold applyInPlace applyRulesFile
  rw [h]
  show EStateM.bind (rules.forM fun a => modify (·.setRule a))
    (fun _ => match start with
      | none => pure ()
      | some name => modify (·.setStart name)) g = _
  unfold EStateM.bind
  rw [forM_setRule]
  cases start with
  | none => rfl
  | some name => rfl

theorem applyInPlace_of_error {contents : FileContents} {cause : Failure}
    (h : RulesFile.ofContents contents = .error cause) (g : Grammar) :
    applyInPlace contents g = .error cause g := by
  unfold applyInPlace
  rw [h]
  rfl

/-- **Applied in place, a file does what the edit does**, and where it fails it has done nothing. -/
theorem applyInPlace_eq (contents : FileContents) (g : Grammar) :
    applyInPlace contents g =
      match g.applyFile contents with
      | .ok h => .ok () h
      | .error cause => .error cause g := by
  unfold applyFile
  cases h : RulesFile.ofContents contents with
  | ok file => exact applyInPlace_of_ok h g
  | error cause => exact applyInPlace_of_error h g

end Sentences.Grammar
