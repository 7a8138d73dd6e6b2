import Sentences.Text.Blank

/-!
# Trimming and lines

* `trim` takes the blank characters off both ends of a text.
* `lines` cuts a text after every line feed. What follows the last line feed is a line of its own
  only if it is not empty, so a text that ends in a line feed has no empty line after it.
-/

namespace Sentences.Text

/-! ## 1. Trimming -/

/-- The text without its leading blank characters. -/
def trimStart (t : Text) : Text :=
  t.dropWhile isBlank

/-- The text without its trailing blank characters. -/
def trimEnd (t : Text) : Text :=
  (t.reverse.dropWhile isBlank).reverse

/-- The text without the blank characters at either end. -/
def trim (t : Text) : Text :=
  trimEnd (trimStart t)

/-- A text of blank characters only; the empty text is one. -/
def allBlank (t : Text) : Bool :=
  t.all isBlank

/-! ## 2. Lines -/

/-- The lines of a text, without their line feeds. A carriage return in front of one stays: it goes
    where the line is trimmed. -/
def lines : Text → List Text
  | [] => []
  | c :: rest =>
    if c = '\n' then [] :: lines rest
    else match lines rest with
      | [] => [[c]]
      | line :: more => (c :: line) :: more

@[simp] theorem lines_nil : lines [] = [] := rfl

@[simp] theorem lines_lineFeed (t : Text) : lines ('\n' :: t) = [] :: lines t := by
  simp [lines]

/-! ## 3. Runs of characters -/

/-- A run of characters of a class ends before the first one that is not of it. -/
theorem span_append {p : Char → Bool} {run rest : Text} (h : ∀ c ∈ run, p c = true)
    (hrest : ∀ c, rest.head? = some c → p c = false) :
    (run ++ rest).takeWhile p = run ∧ (run ++ rest).dropWhile p = rest := by
  rw [List.takeWhile_append_of_pos h, List.dropWhile_append_of_pos h]
  cases rest with
  | nil => exact ⟨List.append_nil run, rfl⟩
  | cons c rest =>
    have hstop : ¬ p c = true := Bool.eq_false_iff.1 (hrest c rfl)
    rw [List.takeWhile_cons_of_neg hstop, List.dropWhile_cons_of_neg hstop, List.append_nil]
    exact ⟨rfl, rfl⟩

/-- What holds of all characters of a text, and of the first one behind it, holds of the first. -/
theorem head?_append_of_forall {P : Char → Prop} {u v : Text} (hu : ∀ c ∈ u, P c)
    (hv : ∀ c, v.head? = some c → P c) : ∀ c, (u ++ v).head? = some c → P c := by
  intro c hc
  cases u with
  | nil => exact hv c hc
  | cons d rest =>
    cases hc
    exact hu c List.mem_cons_self

/-! ## 4. Length -/

theorem length_dropWhile_le (p : Char → Bool) (t : Text) : (t.dropWhile p).length ≤ t.length :=
  (List.dropWhile_suffix p).length_le

/-- The number of bytes that a text takes in UTF-8. -/
def byteLength (t : Text) : Nat :=
  t.foldl (fun n c => n + c.utf8Size) 0

end Sentences.Text
