import Sentences.Text.Blank

/-!
# Tables: values by name

A table holds at most one value for each name. Its entries stand in the order of their names (code
point by code point), so two tables with the same look-ups are equal, and the listing of a table
does not depend on how it was filled.

* `get?_insert` says what a write does to the look-ups;
* `ext` says that the look-ups decide the table.
-/

namespace Sentences

/-- Entries whose names strictly increase. -/
def Ascending {α : Type} (entries : List (Text × α)) : Prop :=
  entries.Pairwise fun a b => a.1 < b.1

/-- Values by name. -/
structure Table (α : Type) where
  /-- The entries in the order of their names. -/
  entries : List (Text × α) := []
  ascending : Ascending entries := by exact List.Pairwise.nil

namespace Table

variable {α : Type}

/-! ## 1. Entries -/

/-- The value that a list of entries gives to a name. -/
def find? (entries : List (Text × α)) (name : Text) : Option α :=
  (entries.find? fun e => decide (e.1 = name)).map (·.2)

/-- The entries with one value replaced, or put in its place by name. -/
def place (name : Text) (value : α) : List (Text × α) → List (Text × α)
  | [] => [(name, value)]
  | e :: rest =>
    if e.1 = name then (name, value) :: rest
    else if name < e.1 then (name, value) :: e :: rest
    else e :: place name value rest

theorem mem_place {name : Text} {value : α} {entries : List (Text × α)} {e : Text × α}
    (h : e ∈ place name value entries) : e.1 = name ∨ e ∈ entries := by
  induction entries with
  | nil => simp_all [place]
  | cons a rest ih =>
    simp only [place] at h
    split at h
    · rcases List.mem_cons.1 h with rfl | h
      · exact .inl rfl
      · exact .inr (List.mem_cons_of_mem _ h)
    · split at h
      · rcases List.mem_cons.1 h with rfl | h
        · exact .inl rfl
        · exact .inr h
      · rcases List.mem_cons.1 h with rfl | h
        · exact .inr List.mem_cons_self
        · exact (ih h).imp_right (List.mem_cons_of_mem _)

/-- Two names are equal or one comes before the other. -/
theorem lt_of_not_lt {a b : Text} (hne : a ≠ b) (h : ¬ b < a) : a < b := by
  rcases Std.Trichotomous.rel_or_eq_or_rel_swap (r := (· < · : Text → Text → Prop)) (a := a) (b := b)
    with h' | h' | h'
  · exact h'
  · exact absurd h' hne
  · exact absurd h' h

theorem ascending_place (name : Text) (value : α) {entries : List (Text × α)}
    (h : Ascending entries) : Ascending (place name value entries) := by
  induction entries with
  | nil => simp [place, Ascending]
  | cons a rest ih =>
    obtain ⟨ha, hr⟩ := List.pairwise_cons.1 h
    simp only [place]
    split
    · next he => subst he; exact List.pairwise_cons.2 ⟨ha, hr⟩
    · next hne =>
      split
      · next hlt =>
        refine List.pairwise_cons.2 ⟨fun e he => ?_, h⟩
        rcases List.mem_cons.1 he with rfl | he
        · exact hlt
        · exact List.lt_trans hlt (ha e he)
      · next hlt =>
        refine List.pairwise_cons.2 ⟨fun e he => ?_, ih hr⟩
        rcases mem_place he with he | he
        · rw [he]; exact lt_of_not_lt hne hlt
        · exact ha e he

theorem find?_place (name : Text) (value : α) (entries : List (Text × α)) (other : Text) :
    find? (place name value entries) other =
      if other = name then some value else find? entries other := by
  induction entries with
  | nil => by_cases h : other = name <;> simp [place, find?, h, eq_comm]
  | cons a rest ih =>
    simp only [find?] at ih ⊢
    simp only [place]
    by_cases h : other = name
    · subst h
      split
      · simp
      · split
        · simp
        · next hne _ => simp_all
    · split
      · next he => subst he; simp [Ne.symm h]
      · split
        · simp [Ne.symm h]
        · by_cases ha : a.1 = other <;> simp_all

/-! ## 2. Tables -/

/-- The table without entries. -/
def empty : Table α := {}

/-- The value of a name. -/
def get? (t : Table α) (name : Text) : Option α :=
  find? t.entries name

/-- Whether a name has a value. -/
def contains (t : Table α) (name : Text) : Bool :=
  (t.get? name).isSome

/-- The table with one value written. -/
def insert (t : Table α) (name : Text) (value : α) : Table α :=
  ⟨place name value t.entries, ascending_place name value t.ascending⟩

/-- The names that have a value, in order. -/
def names (t : Table α) : List Text :=
  t.entries.map (·.1)

@[simp] theorem get?_empty (name : Text) : (empty : Table α).get? name = none := rfl

/-- A write changes the look-up of its own name and of no other. -/
@[simp] theorem get?_insert (t : Table α) (name : Text) (value : α) (other : Text) :
    (t.insert name value).get? other = if other = name then some value else t.get? other :=
  find?_place name value t.entries other

@[simp] theorem contains_insert (t : Table α) (name : Text) (value : α) (other : Text) :
    (t.insert name value).contains other = (decide (other = name) || t.contains other) := by
  by_cases h : other = name <;> simp [contains, h]

/-! ## 3. The look-ups decide the table -/

theorem find?_eq_none_of_lt {entries : List (Text × α)} {name : Text}
    (h : ∀ e ∈ entries, name < e.1) : find? entries name = none := by
  simp only [find?, Option.map_eq_none_iff, List.find?_eq_none, decide_eq_true_eq]
  intro e he heq
  exact List.lt_irrefl name (by simpa [heq] using h e he)

theorem find?_cons_self (name : Text) (value : α) (rest : List (Text × α)) :
    find? ((name, value) :: rest) name = some value := by
  simp [find?]

theorem find?_cons_of_ne {e : Text × α} {name : Text} (h : e.1 ≠ name) (rest : List (Text × α)) :
    find? (e :: rest) name = find? rest name := by
  simp [find?, h]

theorem entries_eq_of_find? {xs ys : List (Text × α)} (hx : Ascending xs) (hy : Ascending ys)
    (h : ∀ name, find? xs name = find? ys name) : xs = ys := by
  induction xs generalizing ys with
  | nil =>
    cases ys with
    | nil => rfl
    | cons y ys => simpa [find?] using h y.1
  | cons x xs ih =>
    cases ys with
    | nil => simpa [find?] using h x.1
    | cons y ys =>
      obtain ⟨hx1, hx2⟩ := List.pairwise_cons.1 hx
      obtain ⟨hy1, hy2⟩ := List.pairwise_cons.1 hy
      have hname : x.1 = y.1 := by
        refine Classical.byContradiction fun hne => ?_
        by_cases hlt : x.1 < y.1
        · have hn : find? (y :: ys) x.1 = none := find?_eq_none_of_lt fun e he => by
            rcases List.mem_cons.1 he with rfl | he
            · exact hlt
            · exact List.lt_trans hlt (hy1 e he)
          have hs := h x.1
          rw [hn, find?_cons_self x.1 x.2 xs] at hs
          simp at hs
        · have hgt := lt_of_not_lt (Ne.symm hne) hlt
          have hn : find? (x :: xs) y.1 = none := find?_eq_none_of_lt fun e he => by
            rcases List.mem_cons.1 he with rfl | he
            · exact hgt
            · exact List.lt_trans hgt (hx1 e he)
          have hs := h y.1
          rw [hn, find?_cons_self y.1 y.2 ys] at hs
          simp at hs
      have hvalue : x.2 = y.2 := by
        have hs := h x.1
        rw [find?_cons_self x.1 x.2 xs, hname, find?_cons_self y.1 y.2 ys] at hs
        exact Option.some.inj hs
      have htail : xs = ys := ih hx2 hy2 fun name => by
        by_cases hn : x.1 = name
        · subst hn
          rw [find?_eq_none_of_lt hx1, find?_eq_none_of_lt (by rw [hname]; exact hy1)]
        · have hs := h name
          rwa [find?_cons_of_ne hn, find?_cons_of_ne (by rwa [← hname])] at hs
      rw [htail, Prod.ext hname hvalue]

/-- Tables with the same look-ups are equal. -/
theorem ext {s t : Table α} (h : ∀ name, s.get? name = t.get? name) : s = t := by
  cases s with
  | mk xs hx =>
    cases t with
    | mk ys hy => simpa using entries_eq_of_find? hx hy h

instance [DecidableEq α] : DecidableEq (Table α) := fun s t =>
  decidable_of_iff (s.entries = t.entries) ⟨fun h => by cases s; cases t; simpa using h, congrArg _⟩

/-- A name is listed exactly when it has a value. -/
theorem mem_names_iff (t : Table α) (name : Text) : name ∈ t.names ↔ t.contains name = true := by
  simp only [names, contains, get?, find?, Option.isSome_map, List.find?_isSome, List.mem_map,
    decide_eq_true_eq]

end Table

end Sentences
