import Sentences.Draws.Pick
import Sentences.Proofs.Walk

/-!
# What is picked

* `Picks`: the rule of picking without fuel; `exists_pick_iff` says that enough fuel makes `pick`
  follow it;
* `picks_drawFor`: every number below `n` is picked by some single draw, for each `n` below
  `2 ^ 64`;
* `Follows`: the draws from a position on begin with a script.
-/

namespace Sentences.Draws

/-! ## 1. The rule of picking -/

/-- From a position on, the first draw that counts among `n` picks its number, and the next
    position is the one after it. -/
inductive Picks (draws : Draws) (n : Nat) : Nat → Nat → Nat → Prop where
  | counted {pos : Nat} (h : counts n (draws pos) = true) :
      Picks draws n pos (number n (draws pos)) (pos + 1)
  | passed {pos i next : Nat} (h : counts n (draws pos) = false)
      (later : Picks draws n (pos + 1) i next) : Picks draws n pos i next

variable {draws : Draws} {n : Nat}

theorem Picks.lt {pos i next : Nat} (hn : 0 < n) (h : Picks draws n pos i next) : i < n := by
  induction h with
  | counted _ => exact number_lt hn _
  | passed _ _ ih => exact ih

theorem Picks.pos_lt {pos i next : Nat} (h : Picks draws n pos i next) : pos < next := by
  induction h with
  | counted _ => exact Nat.lt_succ_self _
  | passed _ _ ih => exact Nat.lt_of_succ_lt ih

theorem picks_of_pick {hn : 0 < n} {fuel pos next : Nat} {i : Fin n}
    (h : pick draws n hn fuel pos = some (i, next)) : Picks draws n pos i next := by
  induction fuel generalizing pos with
  | zero => simp [pick] at h
  | succ fuel ih =>
    unfold pick at h
    split at h
    · rename_i hc
      simp only [Option.some.injEq, Prod.mk.injEq] at h
      obtain ⟨rfl, rfl⟩ := h
      exact .counted hc
    · rename_i hc
      exact .passed (by simpa using hc) (ih h)

theorem pick_of_picks {pos i next : Nat} (hn : 0 < n) (h : Picks draws n pos i next) :
    ∃ fuel, pick draws n hn fuel pos = some (⟨i, h.lt hn⟩, next) := by
  induction h with
  | counted hc => exact ⟨1, by simp [pick, hc]⟩
  | passed hc _ ih =>
    obtain ⟨fuel, hf⟩ := ih
    exact ⟨fuel + 1, by simpa [pick, hc] using hf⟩

/-- **With enough fuel, `pick` follows the rule of picking.** -/
theorem exists_pick_iff {pos next : Nat} (hn : 0 < n) (i : Fin n) :
    (∃ fuel, pick draws n hn fuel pos = some (i, next)) ↔ Picks draws n pos i next :=
  ⟨fun ⟨_, h⟩ => picks_of_pick h, fun h => pick_of_picks hn h⟩

/-- More fuel never changes a pick. -/
theorem pick_more {hn : 0 < n} {fuel pos : Nat} {r : Fin n × Nat}
    (h : pick draws n hn fuel pos = some r) : pick draws n hn (fuel + 1) pos = some r := by
  induction fuel generalizing pos with
  | zero => simp [pick] at h
  | succ fuel ih =>
    unfold pick at h ⊢
    split at h
    · rename_i hc
      rw [if_pos hc]
      exact h
    · rename_i hc
      rw [if_neg hc]
      exact ih h

theorem pick_mono {hn : 0 < n} {fuel more pos : Nat} {r : Fin n × Nat} (hle : fuel ≤ more)
    (h : pick draws n hn fuel pos = some r) : pick draws n hn more pos = some r := by
  induction hle with
  | refl => exact h
  | step _ ih => exact pick_more ih

theorem choose_extends {ε : Type} (hn : 0 < n) (fuel : Nat) :
    Walk.Extends (choose (ε := ε) draws n hn fuel) (choose draws n hn (fuel + 1)) := by
  intro pos r h
  unfold choose at h ⊢
  obtain ⟨s, hs, rfl⟩ := Option.map_eq_some_iff.1 h
  rw [pick_more hs]
  rfl

/-- Where the same draws come later, the same number is picked later. -/
theorem choose_mirrors {ε ε' : Type} {ahead : Draws} {d : Nat}
    (hdraws : ∀ pos, ahead (pos + d) = draws pos) (f : ε → ε') (hn : 0 < n) (fuel : Nat) :
    Walk.Mirrors d f (choose draws n hn fuel) (choose ahead n hn fuel) := by
  have hpick : ∀ pos,
      pick ahead n hn fuel (pos + d) = (pick draws n hn fuel pos).map fun r => (r.1, r.2 + d) := by
    induction fuel with
    | zero => exact fun _ => rfl
    | succ fuel ih =>
      intro pos
      unfold pick
      simp only [hdraws]
      split
      · rw [Option.map_some, Nat.add_right_comm]
      · rw [Nat.add_right_comm]
        exact ih (pos + 1)
  intro pos
  unfold choose
  rw [hpick, Option.map_map, Option.map_map]
  rfl

/-! ## 2. A draw for every number -/

/-- The least draw that picks a number among `n`. -/
def drawFor (n i : Nat) : UInt64 :=
  UInt64.ofNat ((i * UInt64.size + (n - 1)) / n)

/-- The product of the least draw with `n` lies in the first `n` values with high half `i`. -/
theorem drawFor_mul {i : Nat} (hi : i < n) (hn : n < UInt64.size) :
    i * UInt64.size ≤ (drawFor n i).toNat * n ∧
      (drawFor n i).toNat * n ≤ i * UInt64.size + (n - 1) := by
  have hpos : 0 < n := Nat.zero_lt_of_lt hi
  have hup : (i * UInt64.size + (n - 1)) / n * n ≤ i * UInt64.size + (n - 1) :=
    Nat.div_mul_le_self _ _
  have hlow : i * UInt64.size + (n - 1) < ((i * UInt64.size + (n - 1)) / n + 1) * n :=
    (Nat.div_lt_iff_lt_mul hpos).1 (Nat.lt_succ_self _)
  have hword : (i * UInt64.size + (n - 1)) / n < UInt64.size := by
    refine Nat.div_lt_of_lt_mul ?_
    have hnext : (i + 1) * UInt64.size ≤ n * UInt64.size := Nat.mul_le_mul_right _ hi
    rw [Nat.add_mul, Nat.one_mul] at hnext
    omega
  have hval : (drawFor n i).toNat = (i * UInt64.size + (n - 1)) / n :=
    UInt64.toNat_ofNat_of_lt' hword
  rw [hval]
  rw [Nat.add_mul, Nat.one_mul] at hlow
  exact ⟨by omega, hup⟩

theorem pred_le_zone (n : Nat) : n - 1 ≤ zone n := by
  unfold zone
  have : n ≤ n <<< leadingZeros n := by
    rw [Nat.shiftLeft_eq]
    exact Nat.le_mul_of_pos_right n (Nat.two_pow_pos _)
  omega

theorem number_drawFor {i : Nat} (hi : i < n) (hn : n < UInt64.size) :
    number n (drawFor n i) = i := by
  obtain ⟨hlow, hup⟩ := drawFor_mul hi hn
  exact Nat.div_eq_of_lt_le hlow (by rw [Nat.add_mul, Nat.one_mul]; omega)

theorem counts_drawFor {i : Nat} (hi : i < n) (hn : n < UInt64.size) :
    counts n (drawFor n i) = true := by
  obtain ⟨hlow, hup⟩ := drawFor_mul hi hn
  have hdiv : (drawFor n i).toNat * n / UInt64.size = i := number_drawFor hi hn
  have hmod := Nat.div_add_mod ((drawFor n i).toNat * n) UInt64.size
  rw [hdiv, Nat.mul_comm] at hmod
  have hz := pred_le_zone n
  unfold counts
  rw [decide_eq_true_eq]
  omega

/-- **Every number below `n` is picked by a single draw.** -/
theorem picks_drawFor {pos i : Nat} (hi : i < n) (hn : n < UInt64.size)
    (hd : draws pos = drawFor n i) : Picks draws n pos i (pos + 1) := by
  have h : Picks draws n pos (number n (draws pos)) (pos + 1) :=
    .counted (by rw [hd]; exact counts_drawFor hi hn)
  rwa [hd, number_drawFor hi hn] at h

/-! ## 3. Scripts -/

/-- The draws from a position on begin with a script. -/
def Follows (draws : Draws) : Nat → List UInt64 → Prop
  | _, [] => True
  | pos, v :: rest => draws pos = v ∧ Follows draws (pos + 1) rest

theorem follows_append {pos : Nat} {xs ys : List UInt64} :
    Follows draws pos (xs ++ ys) ↔ Follows draws pos xs ∧ Follows draws (pos + xs.length) ys := by
  induction xs generalizing pos with
  | nil => simp [Follows]
  | cons v rest ih =>
    rw [List.cons_append, Follows, Follows, ih, and_assoc, List.length_cons, Nat.add_assoc,
      Nat.add_comm 1]

theorem ofList_follows_of_append (before script : List UInt64) :
    Follows (ofList (before ++ script)) before.length script := by
  induction script generalizing before with
  | nil => trivial
  | cons v rest ih =>
    refine ⟨by simp [ofList], ?_⟩
    have h := ih (before ++ [v])
    rwa [List.append_assoc, List.singleton_append, List.length_append] at h

theorem ofList_follows (script : List UInt64) : Follows (ofList script) 0 script :=
  ofList_follows_of_append [] script

end Sentences.Draws
