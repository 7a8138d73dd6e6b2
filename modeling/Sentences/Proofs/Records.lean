import Mathlib.Data.List.Forall2
import Sentences.Json.Reader

/-!
# Records that are read into other drafts

A record is read field by field into a draft. Where the fields of two records have the same names
and read corresponding drafts, the readers take the same texts, and one reads what corresponds to
what the other reads.

* `Field.Corresponds`: fields that do so;
* `record_map`: the readers of the whole records.
-/

namespace Sentences.Json.Reader

variable {α β σ τ : Type}

/-- The second field reads into the draft that corresponds to a draft what the first one reads into
    that draft. -/
structure RecordField.Corresponds (φ : σ → τ) (f : RecordField σ) (g : RecordField τ) : Prop where
  name : g.name = f.name
  given : ∀ draft, g.given (φ draft) = f.given draft
  read : ∀ draft, g.read (φ draft) = φ <$> f.read draft

/-- A fault leaves no value to change. -/
theorem map_throw (f : α → β) (fault : Fault) : f <$> (throw fault : Reader α) = throw fault := rfl

/-- A value of another shape is reported whatever was wanted. -/
theorem mismatch_map (f : α → β) : f <$> (mismatch : Reader α) = mismatch := by
  unfold mismatch
  rw [map_bind]
  refine congrArg _ (funext fun c => ?_)
  split
  case h_7 =>
    -- a number is read to its end first
    split
    · simp only [map_bind, map_throw]
    · exact map_throw f _
  all_goals simp only [map_bind, map_throw]

section Record

variable {φ : σ → τ} {fs : List (RecordField σ)} {gs : List (RecordField τ)}

/-- Fields of one name correspond, and so do records without a field of that name. -/
theorem find?_corresponds (h : List.Forall₂ (RecordField.Corresponds φ) fs gs) (key : Text) :
    Option.Rel (RecordField.Corresponds φ) (fs.find? fun f => decide (f.name = key))
      (gs.find? fun g => decide (g.name = key)) := by
  induction h with
  | nil => exact .none
  | @cons f g fs gs hf _ ih =>
    rw [List.find?_cons, List.find?_cons, hf.name]
    by_cases hkey : f.name = key
    · rw [decide_eq_true hkey]
      exact .some hf
    · rw [decide_eq_false hkey]
      exact ih

theorem fieldsByName_map (h : List.Forall₂ (RecordField.Corresponds φ) fs gs) :
    ∀ (fuel : Nat) (first : Bool) (draft : σ),
      fieldsByName gs fuel first (φ draft) = φ <$> fieldsByName fs fuel first draft
  | 0, _, _ => rfl
  | fuel + 1, first, draft => by
    unfold fieldsByName
    rw [map_bind]
    refine congrArg _ (funext fun more => ?_)
    cases more with
    | false => simp
    | true =>
      simp only [if_true, map_bind]
      refine congrArg _ (funext fun _ => congrArg _ (funext fun key => ?_))
      have hfind := find?_corresponds h key
      revert hfind
      generalize fs.find? (fun f => decide (f.name = key)) = f
      generalize gs.find? (fun g => decide (g.name = key)) = g
      intro hfind
      cases hfind with
      | none =>
        simp only [map_bind, fieldsByName_map h]
      | @some f g hf =>
        simp only [hf.given, hf.read]
        split
        · rfl
        · simp only [map_bind, bind_map_left, fieldsByName_map h]

theorem fieldsInOrder_map (h : List.Forall₂ (RecordField.Corresponds φ) fs gs) :
    ∀ (first : Bool) (draft : σ),
      fieldsInOrder gs first (φ draft) = φ <$> fieldsInOrder fs first draft := by
  induction h with
  | nil => 
    intro first draft
    simp [fieldsInOrder]
  | cons hf _ ih =>
    intro first draft
    unfold fieldsInOrder
    rw [map_bind]
    refine congrArg _ (funext fun more => ?_)
    cases more with
    | false => simp
    | true => simp only [if_true, map_bind, bind_map_left, hf.read, ih]

/-- **Records with corresponding fields are read alike.** -/
theorem record_map (h : List.Forall₂ (RecordField.Corresponds φ) fs gs) {f : α → β}
    {finish : σ → Option α} {finish' : τ → Option β}
    (hfinish : ∀ draft, finish' (φ draft) = (finish draft).map f) (draft : σ) :
    record gs (φ draft) finish' = f <$> record fs draft finish := by
  have hitems := fieldsInOrder_map h true draft
  have hmembers : (fun t => fieldsByName gs t.length true (φ draft) t : Reader τ) =
      (φ <$> (fun t => fieldsByName fs t.length true draft t : Reader σ) : Reader τ) := by
    funext t
    exact congrFun (fieldsByName_map h t.length true draft) t
  unfold record
  rw [map_bind]
  refine congrArg _ (funext fun c => ?_)
  split
  · simp only [hitems, map_bind, bind_map_left, hfinish]
    refine congrArg _ (funext fun _ => congrArg _ (funext fun last => ?_))
    cases finish last with
    | none => rfl
    | some a => simp
  · simp only [hmembers, map_bind, bind_map_left, hfinish]
    refine congrArg _ (funext fun _ => congrArg _ (funext fun last => ?_))
    cases finish last with
    | none => rfl
    | some a => simp
  · exact (mismatch_map f).symm

end Record

/-- A text holds a changed value where it holds the value. -/
theorem readAll_map (f : α → β) (r : Reader α) (t : Text) :
    readAll (f <$> r) t = (readAll r t).map f := by
  have hrun : (f <$> r) t = (r t).map fun p => (f p.1, p.2) := by
    show Except.bind _ _ = _
    cases r t with
    | error fault => rfl
    | ok p => rfl
  unfold readAll
  rw [hrun]
  cases r t with
  | error fault => rfl
  | ok p =>
    dsimp only [Except.map]
    split
    · rfl
    · rfl

end Sentences.Json.Reader
