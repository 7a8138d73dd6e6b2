import Sentences.Failure
import Sentences.Proofs.BareNames

/-!
# The lines of a rules file, one by one

Texts that are read one by one are read as a whole, or there is a first one that cannot be read. A
rules file is so read: it has the assignments that its lines make, in their order, and of the start
symbols that they choose the last one.

* `readAs_or_firstUnread`: one of the two is the case;
* `ofLines_of_readAs`, `ofLines_of_firstUnread`: what a rules file then comes to;
* `bareName_of_mem_rules`, `bareName_of_mem_starts`: its names are spelled bare.
-/

namespace Sentences

/-! ## 1. One after another -/

section OneByOne

variable {α β : Type} {read : α → Option β} {x z : α} {xs before : List α} {ys : List β}

/-- Every one of several inputs can be read, and this is what they say. -/
def ReadAs (read : α → Option β) (xs : List α) (ys : List β) : Prop :=
  xs.map read = ys.map some

/-- The first input that cannot be read, and those before it. -/
def FirstUnread (read : α → Option β) (xs before : List α) (x : α) : Prop :=
  (∃ after, xs = before ++ x :: after) ∧ (∀ y ∈ before, (read y).isSome = true) ∧ read x = none

theorem readAs_nil_iff : ReadAs read [] ys ↔ ys = [] := by
  unfold ReadAs
  rw [List.map_nil, eq_comm, List.map_eq_nil_iff]

theorem readAs_cons_iff : ReadAs read (x :: xs) ys ↔
    ∃ y rest, read x = some y ∧ ReadAs read xs rest ∧ ys = y :: rest := by
  unfold ReadAs
  rw [List.map_cons, eq_comm, List.map_eq_cons_iff]
  constructor
  · rintro ⟨y, rest, rfl, hy, hrest⟩
    exact ⟨y, rest, hy.symm, hrest.symm, rfl⟩
  · rintro ⟨y, rest, hy, hrest, rfl⟩
    exact ⟨y, rest, rfl, hy.symm, hrest.symm⟩

theorem not_firstUnread_nil : ¬ FirstUnread read [] before z := by
  rintro ⟨⟨after, h⟩, -⟩
  exact List.append_ne_nil_of_right_ne_nil before (List.cons_ne_nil z after) h.symm

theorem firstUnread_cons_of_none (h : read x = none) :
    FirstUnread read (x :: xs) before z ↔ before = [] ∧ z = x := by
  constructor
  · rintro ⟨⟨after, hxs⟩, hbefore, -⟩
    cases before with
    | nil => exact ⟨rfl, (List.cons.inj hxs).1.symm⟩
    | cons y rest =>
      have hy := hbefore y List.mem_cons_self
      rw [← (List.cons.inj hxs).1, h] at hy
      cases hy
  · rintro ⟨rfl, rfl⟩
    exact ⟨⟨xs, rfl⟩, fun y hy => absurd hy List.not_mem_nil, h⟩

theorem firstUnread_cons_of_some {y : β} (h : read x = some y) :
    FirstUnread read (x :: xs) before z ↔
      ∃ rest, before = x :: rest ∧ FirstUnread read xs rest z := by
  constructor
  · rintro ⟨⟨after, hxs⟩, hbefore, hz⟩
    cases before with
    | nil =>
      rw [← (List.cons.inj hxs).1, h] at hz
      cases hz
    | cons first rest =>
      obtain ⟨rfl, hrest⟩ := List.cons.inj hxs
      exact ⟨rest, rfl, ⟨after, hrest⟩, fun y hy => hbefore y (List.mem_cons_of_mem _ hy), hz⟩
  · rintro ⟨rest, rfl, ⟨after, rfl⟩, hrest, hz⟩
    refine ⟨⟨after, rfl⟩, fun w hw => ?_, hz⟩
    rcases List.mem_cons.1 hw with rfl | hw
    · rw [h]
      rfl
    · exact hrest w hw

/-- **All can be read, or there is a first that cannot.** -/
theorem readAs_or_firstUnread (read : α → Option β) (xs : List α) :
    (∃ ys, ReadAs read xs ys) ∨ ∃ before x, FirstUnread read xs before x := by
  induction xs with
  | nil => exact .inl ⟨[], rfl⟩
  | cons x xs ih =>
    cases hx : read x with
    | none => exact .inr ⟨[], x, (firstUnread_cons_of_none hx).2 ⟨rfl, rfl⟩⟩
    | some y =>
      rcases ih with ⟨ys, hys⟩ | ⟨before, z, hz⟩
      · exact .inl ⟨y :: ys, readAs_cons_iff.2 ⟨y, ys, hx, hys, rfl⟩⟩
      · exact .inr ⟨x :: before, z, (firstUnread_cons_of_some hx).2 ⟨before, rfl, hz⟩⟩

/-- Inputs that were each written from something say what they were written from. -/
theorem readAs_map {γ : Type} {write : γ → α} {said : γ → β} {origins : List γ}
    (h : ∀ o ∈ origins, read (write o) = some (said o)) :
    ReadAs read (origins.map write) (origins.map said) := by
  unfold ReadAs
  rw [List.map_map, List.map_map]
  exact List.map_congr_left h

/-- What inputs say is decided by the inputs. -/
theorem ReadAs.unique {zs : List β} (h : ReadAs read xs ys) (h' : ReadAs read xs zs) : ys = zs :=
  (List.map_inj_right fun _ _ => Option.some.inj).1 (h.symm.trans h')

/-- Inputs that are read say what some of them says. -/
theorem ReadAs.exists_of_mem (h : ReadAs read xs ys) {y : β} (hy : y ∈ ys) :
    ∃ x ∈ xs, read x = some y := by
  have hmem : some y ∈ xs.map read := by
    rw [h]
    exact List.mem_map_of_mem hy
  exact List.mem_map.1 hmem

end OneByOne

namespace RulesFile

/-! ## 2. What the lines say -/

/-- What a line says, once it is trimmed. -/
def itemOf? (line : Text) : Option Item :=
  Item.ofLine? line.trim

/-- The start symbol that a line chooses, if it is a start directive. -/
def Item.start? : Item → Option Text
  | .start name => some name
  | _ => none

/-- The assignment that a line makes, if it is one. -/
def Item.rule? : Item → Option Assignment
  | .rule a => some a
  | _ => none

/-- The rules file whose lines say the items: all assignments, and the last start symbol. -/
def ofItems (items : List Item) : RulesFile :=
  ⟨(items.filterMap Item.start?).getLast?, items.filterMap Item.rule?⟩

theorem cons_ofItems (item : Item) (items : List Item) :
    cons item (ofItems items) = ofItems (item :: items) := by
  cases item with
  | nothing => rfl
  | rule a => rfl
  | start name =>
    have hlast : (name :: items.filterMap Item.start?).getLast? =
        (items.filterMap Item.start?).getLast?.or (some name) := by
      rw [List.getLast?_cons]
      cases (items.filterMap Item.start?).getLast? <;> rfl
    exact congrArg (RulesFile.mk · (items.filterMap Item.rule?)) hlast.symm

theorem ofLines_cons_of_none {line : Text} (h : itemOf? line = none) (number : Nat)
    (rest : List Text) : ofLines number (line :: rest) = .error ⟨number, line.trim⟩ := by
  unfold itemOf? at h
  rw [ofLines, h]

theorem ofLines_cons_of_some {line : Text} {item : Item} (h : itemOf? line = some item)
    (number : Nat) (rest : List Text) :
    ofLines number (line :: rest) = (ofLines (number + 1) rest).map (cons item) := by
  unfold itemOf? at h
  rw [ofLines, h]

/-- **Lines that can all be read make the rules file of what they say.** -/
theorem ofLines_of_readAs {lines : List Text} {items : List Item} (h : ReadAs itemOf? lines items)
    (number : Nat) : ofLines number lines = .ok (ofItems items) := by
  induction lines generalizing number items with
  | nil =>
    rw [readAs_nil_iff.1 h]
    rfl
  | cons line rest ih =>
    obtain ⟨item, said, hline, hrest, rfl⟩ := readAs_cons_iff.1 h
    rw [ofLines_cons_of_some hline, ih hrest, ← cons_ofItems]
    rfl

/-- **The first line that cannot be read is the fault**, with its number. -/
theorem ofLines_of_firstUnread {lines before : List Text} {bad : Text}
    (h : FirstUnread itemOf? lines before bad) (number : Nat) :
    ofLines number lines = .error ⟨number + before.length, bad.trim⟩ := by
  induction lines generalizing number before with
  | nil => exact absurd h not_firstUnread_nil
  | cons line rest ih =>
    cases hline : itemOf? line with
    | none =>
      obtain ⟨rfl, rfl⟩ := (firstUnread_cons_of_none hline).1 h
      exact ofLines_cons_of_none hline number rest
    | some item =>
      obtain ⟨earlier, rfl, hrest⟩ := (firstUnread_cons_of_some hline).1 h
      rw [ofLines_cons_of_some hline, ih hrest, List.length_cons, Nat.add_assoc number 1,
        Nat.add_comm 1]
      rfl

/-- The contents of a file whose lines can all be read. -/
theorem ofContents_of_readAs {text : Text} {items : List Item}
    (h : ReadAs itemOf? text.lines items) : ofContents (.ok text) = .ok (ofItems items) := by
  unfold ofContents ofText
  dsimp only
  rw [ofLines_of_readAs h]

/-- The contents of a file with a line that cannot be read; lines are counted from one. -/
theorem ofContents_of_firstUnread {text bad : Text} {before : List Text}
    (h : FirstUnread itemOf? text.lines before bad) :
    ofContents (.ok text) = .error (.text (.line ⟨before.length + 1, bad.trim⟩)) := by
  unfold ofContents ofText
  dsimp only
  rw [ofLines_of_firstUnread h, Nat.add_comm]

/-! ## 3. The names that the lines give -/

section Names

variable {lines : List Text} {items : List Item}

/-- A line that makes an assignment is one, and a line that chooses a start is a directive. -/
theorem Item.ofLine?_cases {line : Text} {item : Item} (h : Item.ofLine? line = some item) :
    item = .nothing ∨ (∃ name, item = .start name ∧ startName? line = some name) ∨
      ∃ a, item = .rule a ∧ Assignment.ofLine? line = some a := by
  unfold Item.ofLine? at h
  split at h
  · exact .inl (Option.some.inj h).symm
  · split at h
    · rename_i name hname
      exact .inr (.inl ⟨name, (Option.some.inj h).symm, hname⟩)
    · obtain ⟨a, ha, rfl⟩ := Option.map_eq_some_iff.1 h
      exact .inr (.inr ⟨a, rfl, ha⟩)

theorem bareName_of_mem_rules (h : ReadAs itemOf? lines items) {a : Assignment}
    (ha : a ∈ items.filterMap Item.rule?) : a.name.bareName = a.name := by
  obtain ⟨item, hitem, hrule⟩ := List.mem_filterMap.1 ha
  obtain ⟨line, -, hline⟩ := h.exists_of_mem hitem
  rcases Item.ofLine?_cases hline with rfl | ⟨name, rfl, -⟩ | ⟨b, rfl, hb⟩
  · cases hrule
  · cases hrule
  · cases hrule
    exact Assignment.bareName_name hb

theorem bareName_of_mem_starts (h : ReadAs itemOf? lines items) {name : Text}
    (hname : name ∈ items.filterMap Item.start?) : name.bareName = name := by
  obtain ⟨item, hitem, hstart⟩ := List.mem_filterMap.1 hname
  obtain ⟨line, -, hline⟩ := h.exists_of_mem hitem
  rcases Item.ofLine?_cases hline with rfl | ⟨other, rfl, ho⟩ | ⟨b, rfl, -⟩
  · cases hstart
  · cases hstart
    exact bareName_startName ho
  · cases hstart

end Names

end RulesFile

end Sentences
