import Sentences.Text.Basic

/-!
# What trimming leaves

* `tight_trim`: a trimmed text has no blank character at either end;
* `trim_of_tight`: a text without one is left as it is;
* `trim_eq_nil_iff`: nothing is left of a blank text, and of no other;
* `exists_padding`: what is cut off is blank;
* `trim_blank_append`, `trim_append_blank`: and blank text at either end makes no difference.
-/

namespace Sentences.Text

/-- No blank character at either end. -/
def Tight (t : Text) : Prop :=
  (∀ c, t.head? = some c → isBlank c = false) ∧ ∀ c, t.getLast? = some c → isBlank c = false

/-! ## 1. The start -/

theorem head?_trimStart {t : Text} {c : Char} (h : t.trimStart.head? = some c) :
    isBlank c = false := by
  have hnot := List.head?_dropWhile_not isBlank t
  unfold trimStart at h
  rw [h] at hnot
  exact hnot

theorem trimStart_of_head? {t : Text} (h : ∀ c, t.head? = some c → isBlank c = false) :
    t.trimStart = t := by
  cases t with
  | nil => rfl
  | cons c rest =>
    have hc := h c rfl
    exact List.dropWhile_cons_of_neg (by simp [hc])

theorem trimStart_cons {c : Char} (h : isBlank c = false) (t : Text) :
    trimStart (c :: t) = c :: t :=
  List.dropWhile_cons_of_neg (by simp [h])

theorem trimStart_space (t : Text) : trimStart (' ' :: t) = t.trimStart :=
  List.dropWhile_cons_of_pos (by decide)

theorem trimStart_eq_nil_iff (t : Text) : t.trimStart = [] ↔ t.allBlank = true := by
  unfold trimStart allBlank
  induction t with
  | nil => simp
  | cons c rest ih =>
    by_cases hc : isBlank c = true
    · rw [List.dropWhile_cons_of_pos hc, ih, List.all_cons, hc, Bool.true_and]
    · rw [List.dropWhile_cons_of_neg hc, List.all_cons, Bool.eq_false_iff.2 hc]
      simp

theorem takeWhile_append_trimStart (t : Text) : t.takeWhile isBlank ++ t.trimStart = t :=
  List.takeWhile_append_dropWhile

/-! ## 2. The end -/

theorem trimEnd_isPrefix (t : Text) : t.trimEnd <+: t := by
  have hsuffix := List.dropWhile_suffix isBlank (l := t.reverse)
  rw [← List.reverse_prefix, List.reverse_reverse] at hsuffix
  exact hsuffix

theorem getLast?_trimEnd {t : Text} {c : Char} (h : t.trimEnd.getLast? = some c) :
    isBlank c = false := by
  unfold trimEnd at h
  rw [List.getLast?_reverse] at h
  exact head?_trimStart h

theorem trimEnd_of_getLast? {t : Text} (h : ∀ c, t.getLast? = some c → isBlank c = false) :
    t.trimEnd = t := by
  have hhead : ∀ c, t.reverse.head? = some c → isBlank c = false := by
    intro c hc
    rw [List.head?_reverse] at hc
    exact h c hc
  unfold trimEnd
  have hkeep : t.reverse.dropWhile isBlank = t.reverse := trimStart_of_head? hhead
  rw [hkeep, List.reverse_reverse]

/-! ## 3. Both ends -/

/-- **A trimmed text has no blank character at either end.** -/
theorem tight_trim (t : Text) : t.trim.Tight := by
  refine ⟨fun c hc => ?_, fun c hc => getLast?_trimEnd hc⟩
  obtain ⟨rest, hrest⟩ := trimEnd_isPrefix t.trimStart
  have hhead : t.trimStart.head? = some c := by
    rw [← hrest, List.head?_append]
    unfold trim at hc
    rw [hc, Option.some_or]
  exact head?_trimStart hhead

/-- **A text without blank ends is its own trimmed text.** -/
theorem trim_of_tight {t : Text} (h : t.Tight) : t.trim = t := by
  obtain ⟨hhead, hlast⟩ := h
  unfold trim
  rw [trimStart_of_head? hhead, trimEnd_of_getLast? hlast]

theorem trim_cons_of_blank {c : Char} (h : isBlank c = true) (t : Text) :
    trim (c :: t) = trim t := by
  have hskip : trimStart (c :: t) = trimStart t := List.dropWhile_cons_of_pos h
  unfold trim
  rw [hskip]

theorem mem_of_mem_trim {t : Text} {c : Char} (h : c ∈ t.trim) : c ∈ t := by
  have hstart : c ∈ t.trimStart := (trimEnd_isPrefix _).subset h
  exact (List.dropWhile_suffix isBlank).subset hstart

theorem trim_eq_nil_iff (t : Text) : t.trim = [] ↔ t.allBlank = true := by
  rw [← trimStart_eq_nil_iff]
  constructor
  · intro h
    cases hs : t.trimStart with
    | nil => rfl
    | cons c rest =>
      -- the first character is not blank, so the end cannot be cut back past it
      have hc : isBlank c = false := head?_trimStart (t := t) (by rw [hs]; rfl)
      have hblank : trimStart (c :: rest).reverse = [] := by
        unfold trim trimEnd at h
        rw [hs] at h
        exact List.reverse_eq_nil_iff.1 h
      rw [trimStart_eq_nil_iff] at hblank
      unfold allBlank at hblank
      rw [List.all_eq_true] at hblank
      have hpos := hblank c (by simp)
      rw [hc] at hpos
      cases hpos
  · intro h
    unfold trim
    rw [h]
    rfl

/-- A tight text that is not empty is not blank. -/
theorem allBlank_of_tight {t : Text} (h : t.Tight) (hne : t ≠ []) : t.allBlank = false := by
  rw [← Bool.not_eq_true, ← trim_eq_nil_iff, trim_of_tight h]
  exact hne

/-! ## 4. Blank text at the ends -/

theorem isBlank_of_mem {w : Text} (h : w.allBlank = true) : ∀ c ∈ w, isBlank c = true :=
  List.all_eq_true.1 h

/-- A mark that is not blank does not stand in blank text. -/
theorem notMem_of_allBlank {w : Text} (h : w.allBlank = true) {mark : Char}
    (hmark : isBlank mark = false) : mark ∉ w := by
  intro hm
  rw [isBlank_of_mem h mark hm] at hmark
  cases hmark

theorem allBlank_append (t w : Text) : (t ++ w).allBlank = (t.allBlank && w.allBlank) :=
  List.all_append

theorem trim_blank_append {w : Text} (h : w.allBlank = true) (t : Text) :
    trim (w ++ t) = trim t := by
  have hskip : trimStart (w ++ t) = trimStart t := List.dropWhile_append_of_pos (isBlank_of_mem h)
  unfold trim
  rw [hskip]

theorem trimEnd_append_blank {w : Text} (h : w.allBlank = true) (t : Text) :
    trimEnd (t ++ w) = trimEnd t := by
  have hblank : ∀ c ∈ w.reverse, isBlank c = true :=
    fun c hc => isBlank_of_mem h c (List.mem_reverse.1 hc)
  unfold trimEnd
  rw [List.reverse_append, List.dropWhile_append_of_pos hblank]

/-- **Blank text makes no difference to trimming, behind a text no more than in front of it.** -/
theorem trim_append_blank {w : Text} (h : w.allBlank = true) (t : Text) :
    trim (t ++ w) = trim t := by
  by_cases ht : t.allBlank = true
  · rw [trim_blank_append ht, (trim_eq_nil_iff t).2 ht, (trim_eq_nil_iff w).2 h]
  · have hne : t.trimStart ≠ [] := fun he => ht ((trimStart_eq_nil_iff t).1 he)
    have hkeep : trimStart (t ++ w) = trimStart t ++ w := by
      unfold trimStart at hne ⊢
      rw [List.dropWhile_append, if_neg (by simpa using hne)]
    unfold trim
    rw [hkeep, trimEnd_append_blank h]

theorem exists_trimEnd_append (t : Text) :
    ∃ after, after.allBlank = true ∧ t.trimEnd ++ after = t := by
  refine ⟨(t.reverse.takeWhile isBlank).reverse, ?_, ?_⟩
  · unfold allBlank
    rw [List.all_reverse]
    exact List.all_takeWhile
  · unfold trimEnd
    rw [← List.reverse_append, List.takeWhile_append_dropWhile, List.reverse_reverse]

/-- Trimming cuts off nothing but blank text. -/
theorem exists_padding (t : Text) :
    ∃ before after, before.allBlank = true ∧ after.allBlank = true ∧
      t = before ++ (t.trim ++ after) := by
  obtain ⟨after, hblank, hafter⟩ := exists_trimEnd_append t.trimStart
  refine ⟨t.takeWhile isBlank, after, List.all_takeWhile, hblank, ?_⟩
  unfold trim
  rw [hafter, t.takeWhile_append_trimStart]

theorem trim_trimStart (t : Text) : t.trimStart.trim = t.trim := by
  have hstart : t.trimStart.trimStart = t.trimStart :=
    trimStart_of_head? fun _ hc => head?_trimStart hc
  unfold trim
  rw [hstart]

theorem trim_trimEnd (t : Text) : t.trimEnd.trim = t.trim := by
  obtain ⟨after, hblank, hafter⟩ := exists_trimEnd_append t
  calc t.trimEnd.trim = trim (t.trimEnd ++ after) := (trim_append_blank hblank _).symm
    _ = t.trim := by rw [hafter]

/-- The end is cut back no further than to a character that is not blank. -/
theorem trimEnd_append_cons {c : Char} (h : isBlank c = false) (before after : Text) :
    trimEnd (before ++ c :: after) = before ++ c :: trimEnd after := by
  have hstop : (c :: before.reverse).dropWhile isBlank = c :: before.reverse :=
    List.dropWhile_cons_of_neg (by simp [h])
  unfold trimEnd
  rw [List.reverse_append, List.reverse_cons, List.append_assoc, List.singleton_append,
    List.dropWhile_append]
  by_cases ha : after.reverse.dropWhile isBlank = []
  · rw [if_pos (by simpa using ha), hstop, ha]
    simp
  · rw [if_neg (by simpa using ha)]
    simp

/-- A first character that is not blank stays in front. -/
theorem trim_cons {c : Char} (h : isBlank c = false) (t : Text) :
    trim (c :: t) = c :: trimEnd t := by
  unfold trim
  rw [trimStart_cons h]
  exact trimEnd_append_cons h [] t

end Sentences.Text
