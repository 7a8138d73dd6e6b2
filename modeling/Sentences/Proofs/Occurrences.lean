import Mathlib.Data.List.Basic

/-!
# First occurrences in a list

`List.eraseDups` keeps the first occurrence of every element.

* `nodup_eraseDups`: nothing occurs twice in what is kept;
* `pairwise_idxOf_eraseDups`: and it stands in the order of the first occurrences;
* `eraseDups_of_nodup`: where nothing occurs twice, all is kept;
* `eraseDups_of_repeated`: an occurrence behind another one makes no difference.
-/

namespace Sentences.Occurrences

variable {α : Type} [BEq α] [LawfulBEq α]

theorem nodup_eraseDups : ∀ as : List α, as.eraseDups.Nodup
  | [] => List.nodup_nil
  | a :: as => by
    have hlen := List.length_filter_le (fun b => !b == a) as
    rw [List.eraseDups_cons, List.nodup_cons, List.mem_eraseDups]
    refine ⟨fun h => ?_, nodup_eraseDups _⟩
    have hne := (List.mem_filter.1 h).2
    simp at hne
termination_by as => as.length
decreasing_by exact Nat.lt_succ_of_le hlen

theorem eraseDups_of_nodup {as : List α} (h : as.Nodup) : as.eraseDups = as := by
  induction as with
  | nil => rfl
  | cons a rest ih =>
    obtain ⟨ha, hrest⟩ := List.nodup_cons.1 h
    have hkeep : rest.filter (fun b => !b == a) = rest := by
      refine List.filter_eq_self.2 fun b hb => ?_
      have hne : b ≠ a := fun he => ha (he ▸ hb)
      simpa using hne
    rw [List.eraseDups_cons, hkeep, ih hrest]

/-- Of the elements that are let through, the first occurrences stand in their order in the whole
    list. -/
theorem pairwise_idxOf_eraseDups (as : List α) (p : α → Bool) :
    (as.filter p).eraseDups.Pairwise fun a b => as.idxOf a < as.idxOf b := by
  induction as generalizing p with
  | nil => exact .nil
  | cons first rest ih =>
    -- among elements other than the first the order is that in the rest
    have hrest : ∀ q : α → Bool, q first = false →
        (rest.filter q).eraseDups.Pairwise fun a b =>
          (first :: rest).idxOf a < (first :: rest).idxOf b := by
      intro q hq
      have hne : ∀ a ∈ (rest.filter q).eraseDups, first ≠ a := by
        intro a ha he
        rw [List.mem_eraseDups, List.mem_filter, ← he, hq] at ha
        exact absurd ha.2 Bool.false_ne_true
      refine (List.Pairwise.imp_of_mem ?_ (ih q))
      intro a b ha hb hlt
      rw [List.idxOf_cons_ne rest (hne a ha), List.idxOf_cons_ne rest (hne b hb)]
      exact Nat.succ_lt_succ hlt
    by_cases hp : p first = true
    · rw [List.filter_cons_of_pos hp, List.eraseDups_cons, List.filter_filter]
      refine List.pairwise_cons.2 ⟨fun b hb => ?_, hrest _ (by simp)⟩
      have hne : first ≠ b := by
        intro he
        rw [List.mem_eraseDups, List.mem_filter, ← he] at hb
        simp at hb
      rw [List.idxOf_cons_self, List.idxOf_cons_ne rest hne]
      exact Nat.succ_pos _
    · rw [List.filter_cons_of_neg hp]
      exact hrest p (Bool.eq_false_iff.2 hp)

/-- An occurrence behind another one makes no difference. -/
theorem eraseDups_of_repeated {before after : List α} {a : α} (h : a ∈ before) :
    (before ++ a :: after).eraseDups = (before ++ after).eraseDups := by
  have hdrop : (a :: after).removeAll before = after.removeAll before := by
    unfold List.removeAll
    exact List.filter_cons_of_neg (by simp [h])
  rw [List.eraseDups_append, List.eraseDups_append, hdrop]

omit [BEq α] [LawfulBEq α] in
/-- There is at most one way to list given elements in a given order. -/
theorem eq_of_pairwise {r : α → α → Prop} (hr : ∀ a b, r a b → ¬ r b a) {as bs : List α}
    (has : as.Pairwise r) (hbs : bs.Pairwise r) (h : ∀ a, a ∈ as ↔ a ∈ bs) : as = bs := by
  have hne : ∀ {a b}, r a b → a ≠ b := fun hab he => hr _ _ hab (he ▸ hab)
  have hperm := (List.perm_ext_iff_of_nodup (has.imp hne) (hbs.imp hne)).2 h
  exact hperm.eq_of_pairwise (fun a b _ _ hab hba => absurd hba (hr a b hab)) has hbs

end Sentences.Occurrences
