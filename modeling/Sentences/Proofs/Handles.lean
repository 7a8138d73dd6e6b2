import Sentences.Proofs.BareNames
import Sentences.Proofs.Listing

/-!
# Spellings by which a listed name is found

Whatever takes a name takes any spelling of it, and strips it of white space and of one pair of
brackets. So a rule is found by the spellings that stand for its name. The name itself need not be
one of them: a name that was given as `<<a>>` is stored and listed as `<a>`, which stands for `a`.

* `Handle`: a spelling by which a name is found, its rule is read and its rule is replaced;
* `Consistent.handle_iff`: these are the spellings that stand for the name;
* `Reachable.handles`: so every listed name is found in its brackets, and by itself exactly if it is
  bare;
* `not_all_listed_handles`: not every listed name is.
-/

namespace Sentences.Grammar

/-- A spelling by which a name is found: it has a rule, which is the one listed under the name, and
    to write a rule replaces that one and nothing else, in the listing neither. -/
structure Handle (g : Grammar) (spelling name : Text) : Prop where
  found : g.has spelling = true
  shown : ∃ rule, g.rule? spelling = some rule ∧ g.rules.get? name = some rule ∧
    (name, rule) ∈ g.listed
  replaces : ∀ text, g.setRule ⟨spelling, text⟩ =
    { g with rules := g.rules.insert name (Rule.ofText text) }
  listing : ∀ text, (g.setRule ⟨spelling, text⟩).names = g.names

variable {g : Grammar} {name spelling : Text}

/-- To write the rule of a known name changes the table only. -/
theorem setRule_of_has (h : g.has spelling = true) (text : Text) : g.setRule ⟨spelling, text⟩ =
    { g with rules := g.rules.insert spelling.bareName (Rule.ofText text) } := by
  unfold has at h
  unfold setRule
  simp only [h, if_true]

/-- And it leaves the listing of names as it is. -/
theorem names_setRule_of_has (h : g.has spelling = true) (text : Text) :
    (g.setRule ⟨spelling, text⟩).names = g.names := by
  have hcontains : (g.rules.insert spelling.bareName (Rule.ofText text)).contains =
      g.rules.contains := by
    funext other
    rw [Table.contains_insert]
    by_cases ho : other = spelling.bareName
    · rw [ho, show g.rules.contains spelling.bareName = true from h, Bool.or_true]
    · rw [decide_eq_false ho, Bool.false_or]
  rw [setRule_of_has h]
  unfold names
  dsimp only
  rw [hcontains]

/-- **A listed name is found by the spellings that stand for it**, and by no others. -/
theorem Consistent.handle_iff (hc : Consistent g) (hname : name ∈ g.names) :
    Handle g spelling name ↔ spelling.bareName = name := by
  constructor
  · intro h
    -- another name would keep its rule, whatever text is written
    refine Classical.byContradiction fun hne => ?_
    have hwrite : ∀ text, (g.setRule ⟨spelling, text⟩).rules.get? name =
        some (Rule.ofText text) := by
      intro text
      rw [h.replaces text]
      show (g.rules.insert name _).get? name = _
      rw [Table.get?_insert, if_pos rfl]
    have hkeep : ∀ text, (g.setRule ⟨spelling, text⟩).rules.get? name = g.rules.get? name := by
      intro text
      rw [get?_setRule, if_neg (Ne.symm hne)]
    have hsame : Rule.ofText [] = Rule.ofText [','] := by
      refine Option.some.inj ?_
      rw [← hwrite, ← hwrite, hkeep, hkeep]
    revert hsame
    decide +kernel
  · rintro rfl
    have hhas : g.has spelling = true := (hc.mem_names_iff _).1 hname
    obtain ⟨rule, hrule⟩ := Option.isSome_iff_exists.1 hhas
    refine ⟨hhas, ⟨rule, hrule, hrule, ?_⟩, setRule_of_has hhas, names_setRule_of_has hhas⟩
    exact (mem_listed_iff g _).2 ⟨hname, (Table.get?_eq_some_iff _ _ _).1 hrule⟩

/-- **Every listed name is found in its brackets, and by itself exactly if it is bare.** -/
theorem Reachable.handles (h : g.Reachable) (hname : name ∈ g.names) :
    Handle g name.inBrackets name ∧ (Handle g name name ↔ name.Bare) := by
  have hc : Consistent g := h.made.consistent
  rw [hc.handle_iff hname, hc.handle_iff hname]
  exact ⟨Text.bareName_inBrackets name, Text.bareName_eq_self_iff name⟩

/-- A name in two pairs of brackets, one with white space inside its brackets, and a plain one. -/
def wrappedRules : List Assignment :=
  [⟨"<<a>>".toList, "x".toList⟩, ⟨"< b >".toList, "y".toList⟩, ⟨"c".toList, "z".toList⟩]

/-- The grammar with these rules. -/
def wrapped : Grammar :=
  ofRules wrappedRules

theorem reachable_wrapped : wrapped.Reachable :=
  ⟨.rules wrappedRules, [], wrapped, rfl, List.foldl_nil.symm⟩

theorem handles_wrapped :
    wrapped.Reachable ∧ wrapped.names = ["<a>".toList, " b ".toList, "c".toList] ∧
      Handle wrapped (Text.inBrackets "<a>".toList) "<a>".toList ∧
      Handle wrapped (Text.inBrackets " b ".toList) " b ".toList ∧
      Handle wrapped "c".toList "c".toList := by
  have hnames : wrapped.names = ["<a>".toList, " b ".toList, "c".toList] := by decide +kernel
  have ha : "<a>".toList ∈ wrapped.names := by decide +kernel
  have hb : " b ".toList ∈ wrapped.names := by decide +kernel
  have hc : "c".toList ∈ wrapped.names := by decide +kernel
  have hbare : Text.Bare "c".toList := (Text.bareName_eq_self_iff _).1 (by decide +kernel)
  exact ⟨reachable_wrapped, hnames, (Reachable.handles reachable_wrapped ha).1,
    (Reachable.handles reachable_wrapped hb).1, (Reachable.handles reachable_wrapped hc).2.2 hbare⟩

/-- **Not every listed name is found by itself**: `<a>` is listed, and stands for `a`. -/
theorem not_all_listed_handles :
    ¬ ∀ g : Grammar, g.Reachable → ∀ name ∈ g.names, Handle g name name := by
  intro h
  have hmem : "<a>".toList ∈ wrapped.names := by decide +kernel
  have hfound := (h wrapped reachable_wrapped _ hmem).found
  revert hfound
  decide +kernel

end Sentences.Grammar
