import Sentences.Text.Basic

/-!
# Texts put together from lines

* `lines_append`: behind a text that ends with a line feed, the lines of what follows come after its
  own;
* `lines_ofLines`: lines that are written one after another are read back.
-/

namespace Sentences.Text

/-- The text is empty or ends with a line feed: what follows starts a line. -/
def LinesEnded (t : Text) : Prop :=
  ∀ c, t.getLast? = some c → c = '\n'

/-- Lines one after another, each ended by a line feed. -/
def ofLines (ls : List Text) : Text :=
  ls.flatMap (· ++ ['\n'])

theorem linesEnded_of_getLast? {t : Text} (h : t.getLast? = some '\n') : t.LinesEnded :=
  fun _ hc => Option.some.inj (hc.symm.trans h)

theorem LinesEnded.tail {c : Char} {t : Text} (h : LinesEnded (c :: t)) : t.LinesEnded := by
  intro d hd
  refine h d ?_
  rw [List.getLast?_cons, hd]
  rfl

theorem lines_eq_nil_iff (t : Text) : t.lines = [] ↔ t = [] := by
  cases t with
  | nil => simp
  | cons c rest =>
    rw [lines]
    split
    · simp
    · split <;> simp

theorem lines_cons {c : Char} (hc : c ≠ '\n') {rest line : Text} {more : List Text}
    (h : rest.lines = line :: more) : lines (c :: rest) = (c :: line) :: more := by
  rw [lines, if_neg hc, h]

/-- **Behind a text that ends with a line feed, lines start anew.** -/
theorem lines_append {a : Text} (h : a.LinesEnded) (b : Text) :
    (a ++ b).lines = a.lines ++ b.lines := by
  induction a with
  | nil => rfl
  | cons c rest ih =>
    by_cases hc : c = '\n'
    · rw [hc, List.cons_append, lines_lineFeed, lines_lineFeed, ih h.tail, List.cons_append]
    · -- the last character is a line feed, so there is another one
      have hne : rest ≠ [] := fun he => hc (h c (by rw [he]; rfl))
      have hlines : lines rest ≠ [] := fun he => hne ((lines_eq_nil_iff rest).1 he)
      obtain ⟨line, more, hrest⟩ := List.exists_cons_of_ne_nil hlines
      have happend : lines (rest ++ b) = line :: (more ++ b.lines) := by
        rw [ih h.tail, hrest, List.cons_append]
      rw [List.cons_append, lines_cons hc happend, lines_cons hc hrest, List.cons_append]

theorem lines_line {l : Text} (h : '\n' ∉ l) : lines (l ++ ['\n']) = [l] := by
  induction l with
  | nil => rfl
  | cons c rest ih =>
    have hc : c ≠ '\n' := fun he => h (he ▸ List.mem_cons_self)
    exact lines_cons hc (ih fun hm => h (List.mem_cons_of_mem c hm))

/-- A text without a line feed is one line, if it is anything at all. -/
theorem lines_of_notMem {l : Text} (h : '\n' ∉ l) (hne : l ≠ []) : lines l = [l] := by
  induction l with
  | nil => exact absurd rfl hne
  | cons c rest ih =>
    have hc : c ≠ '\n' := fun he => h (he ▸ List.mem_cons_self)
    by_cases hrest : rest = []
    · rw [hrest, lines, if_neg hc, lines_nil]
    · exact lines_cons hc (ih (fun hm => h (List.mem_cons_of_mem c hm)) hrest)

/-- **Lines that are written one after another are read back.** -/
theorem lines_ofLines {ls : List Text} (h : ∀ l ∈ ls, '\n' ∉ l) : (ofLines ls).lines = ls := by
  induction ls with
  | nil => rfl
  | cons l rest ih =>
    have hended : LinesEnded (l ++ ['\n']) := linesEnded_of_getLast? List.getLast?_concat
    have hrest : (ofLines rest).lines = rest := ih fun k hk => h k (List.mem_cons_of_mem l hk)
    show ((l ++ ['\n']) ++ ofLines rest).lines = l :: rest
    rw [lines_append hended, lines_line (h l List.mem_cons_self), hrest, List.singleton_append]

end Sentences.Text
