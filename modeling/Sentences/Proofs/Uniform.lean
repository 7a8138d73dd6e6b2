import Mathlib.Algebra.Order.BigOperators.Group.Finset
import Mathlib.Data.FinEnum
import Mathlib.Data.List.GetD
import Mathlib.Order.Interval.Finset.Nat
import Sentences.Proofs.Picking
import Sentences.Rule.Basic

/-!
# Picks are uniform

Among `n` alternatives the draws that count are cut into `n` runs, one for each number, and every
run has `2 ^ leadingZeros n` draws. A run for `i` starts with the least draw whose product with `n`
has the high half `i`, and it ends before the low half of the product leaves the zone.

* `counts_and_number_iff`: the draws that pick `i` are a run of consecutive ones;
* `card_picking`, `card_counting`: how many draws pick `i`, and how many count at all;
* `counts_eq_word`: the zone and the low half in words of 64 bits;
* `exists_pick_ofList`: a script of `k` draws leads to a pick within `k + 1` draws, so it settles
  every pick (`settles_ofList`);
* `pick_uniform`: the picks among `n` are uniform and always in range.
-/

namespace Sentences.Draws

variable {n : Nat}

/-! ## 1. The zone -/

theorem size_eq : UInt64.size = 2 ^ 63 * 2 := rfl

/-- Moved up by its leading zeros, a number has the highest of 64 bits. -/
theorem shifted_bounds (hn : 0 < n) (hlt : n < UInt64.size) :
    2 ^ 63 ≤ n * 2 ^ leadingZeros n ∧ n * 2 ^ leadingZeros n < UInt64.size := by
  have hlog : n.log2 < 64 := (Nat.log2_lt hn.ne').2 hlt
  have hlow : 2 ^ n.log2 ≤ n := Nat.log2_self_le hn.ne'
  have hup : n < 2 ^ (n.log2 + 1) := Nat.lt_log2_self
  have hpow : 2 ^ n.log2 * 2 ^ leadingZeros n = 2 ^ 63 := by
    rw [← Nat.pow_add]
    congr 1
    unfold leadingZeros
    omega
  constructor
  · rw [← hpow]
    exact Nat.mul_le_mul_right _ hlow
  · calc n * 2 ^ leadingZeros n < 2 ^ (n.log2 + 1) * 2 ^ leadingZeros n :=
          Nat.mul_lt_mul_of_pos_right hup (Nat.two_pow_pos _)
      _ = UInt64.size := by
          rw [Nat.pow_succ, Nat.mul_right_comm, hpow, size_eq]

theorem zone_eq (n : Nat) : zone n = n * 2 ^ leadingZeros n - 1 := by
  unfold zone
  rw [Nat.shiftLeft_eq]

/-- The leading zeros of a number are those of its word. -/
theorem leadingZeros_eq_clz (hn : 0 < n) (hlt : n < UInt64.size) :
    leadingZeros n = (UInt64.ofNat n).toBitVec.clz.toNat := by
  have hword : (UInt64.ofNat n).toBitVec.toNat = n := UInt64.toNat_ofNat_of_lt' hlt
  have hne : (UInt64.ofNat n).toBitVec ≠ 0#64 := by
    intro h
    rw [h] at hword
    exact hn.ne hword
  have hlow := BitVec.two_pow_sub_clz_le_toNat_of_ne_zero (by decide) hne
  have hup := BitVec.toNat_lt_two_pow_sub_clz (x := (UInt64.ofNat n).toBitVec)
  rw [hword] at hlow hup
  generalize (UInt64.ofNat n).toBitVec.clz.toNat = zeros at hlow hup
  have hge : 64 - 1 - zeros ≤ n.log2 := (Nat.le_log2 hn.ne').2 hlow
  have hle : n.log2 < 64 - zeros := (Nat.log2_lt hn.ne').2 hup
  unfold leadingZeros
  omega

/-- The zone and the low half of a product, in words. -/
theorem counts_eq_word (hn : 0 < n) (hlt : n < UInt64.size) (v : UInt64) :
    counts n v = decide (v * UInt64.ofNat n ≤
      (UInt64.ofNat n <<< UInt64.ofBitVec (UInt64.ofNat n).toBitVec.clz) - 1) := by
  obtain ⟨hhigh, hfits⟩ := shifted_bounds hn hlt
  have hword : (UInt64.ofNat n).toNat = n := UInt64.toNat_ofNat_of_lt' hlt
  have hzeros : leadingZeros n < 64 := by
    unfold leadingZeros
    omega
  have hshift : (UInt64.ofNat n <<< UInt64.ofBitVec (UInt64.ofNat n).toBitVec.clz).toNat =
      n * 2 ^ leadingZeros n := by
    rw [UInt64.toNat_shiftLeft, hword, UInt64.toNat_ofBitVec, ← leadingZeros_eq_clz hn hlt,
      Nat.mod_eq_of_lt hzeros, Nat.shiftLeft_eq, Nat.mod_eq_of_lt hfits]
  have hone : (1 : UInt64) ≤
      UInt64.ofNat n <<< UInt64.ofBitVec (UInt64.ofNat n).toBitVec.clz := by
    rw [UInt64.le_iff_toNat_le, hshift]
    exact Nat.le_trans (Nat.one_le_two_pow) hhigh
  unfold counts
  rw [decide_eq_decide, UInt64.le_iff_toNat_le, UInt64.toNat_mul, hword,
    UInt64.toNat_sub_of_le _ _ hone, hshift, zone_eq]
  exact Iff.rfl

/-! ## 2. How many draws pick a number -/

/-- The draws that pick a number among `n` are a run that starts with the least of them. -/
theorem counts_and_number_iff {i : Nat} (hi : i < n) (hlt : n < UInt64.size) (v : UInt64) :
    counts n v = true ∧ number n v = i ↔
      (drawFor n i).toNat ≤ v.toNat ∧ v.toNat < (drawFor n i).toNat + 2 ^ leadingZeros n := by
  have hn : 0 < n := Nat.zero_lt_of_lt hi
  obtain ⟨hlow, hup⟩ := drawFor_mul hi hlt
  obtain ⟨hhigh, hfits⟩ := shifted_bounds hn hlt
  -- both conditions bound the product of the draw with `n`
  have hproduct : counts n v = true ∧ number n v = i ↔
      i * UInt64.size ≤ v.toNat * n ∧
        v.toNat * n < i * UInt64.size + n * 2 ^ leadingZeros n := by
    have hsplit := Nat.div_add_mod (v.toNat * n) UInt64.size
    unfold counts number
    rw [decide_eq_true_eq, zone_eq]
    constructor
    · intro ⟨hzone, hnumber⟩
      rw [hnumber, Nat.mul_comm] at hsplit
      omega
    · intro ⟨hge, hlt⟩
      have hnumber : v.toNat * n / UInt64.size = i :=
        Nat.div_eq_of_lt_le hge (by rw [Nat.add_mul, Nat.one_mul]; omega)
      rw [hnumber, Nat.mul_comm] at hsplit
      exact ⟨by omega, hnumber⟩
  rw [hproduct]
  constructor
  · intro ⟨hge, hle⟩
    constructor
    · by_contra hless
      have hnext := Nat.mul_le_mul_right n (Nat.lt_of_not_le hless)
      rw [Nat.succ_mul] at hnext
      omega
    · by_contra hmore
      have hrun := Nat.mul_le_mul_right n (Nat.le_of_not_lt hmore)
      rw [Nat.add_mul, Nat.mul_comm (2 ^ _)] at hrun
      omega
  · intro ⟨hge, hle⟩
    constructor
    · exact Nat.le_trans hlow (Nat.mul_le_mul_right n hge)
    · have hrun := Nat.mul_le_mul_right n hle
      rw [Nat.succ_mul, Nat.add_mul, Nat.mul_comm (2 ^ _)] at hrun
      omega

theorem card_words {a b : Nat} (hb : b ≤ UInt64.size) :
    (Finset.univ.filter fun v : UInt64 => a ≤ v.toNat ∧ v.toNat < b).card = b - a := by
  rw [← Nat.card_Ico a b]
  refine Finset.card_nbij UInt64.toNat (fun v hv => ?_) (fun v _ w _ h => UInt64.toNat_inj.1 h)
    fun k hk => ?_
  · exact Finset.mem_Ico.2 (Finset.mem_filter.1 hv).2
  · have hrange := Finset.mem_Ico.1 hk
    have hword : (UInt64.ofNat k).toNat = k :=
      UInt64.toNat_ofNat_of_lt' (Nat.lt_of_lt_of_le hrange.2 hb)
    refine ⟨UInt64.ofNat k, ?_, hword⟩
    rw [Finset.mem_coe, Finset.mem_filter, hword]
    exact ⟨Finset.mem_univ _, hrange⟩

/-- **Every number is picked by equally many draws.** -/
theorem card_picking {i : Nat} (hi : i < n) (hlt : n < UInt64.size) :
    (Finset.univ.filter fun v : UInt64 => counts n v = true ∧ number n v = i).card =
      2 ^ leadingZeros n := by
  have hn : 0 < n := Nat.zero_lt_of_lt hi
  have hend : (drawFor n i).toNat + 2 ^ leadingZeros n ≤ UInt64.size := by
    obtain ⟨-, hup⟩ := drawFor_mul hi hlt
    obtain ⟨-, hfits⟩ := shifted_bounds hn hlt
    have hnext : (i + 1) * UInt64.size ≤ n * UInt64.size := Nat.mul_le_mul_right _ hi
    rw [Nat.add_mul, Nat.one_mul] at hnext
    -- the product of the end of the run with `n`
    have hproduct : ((drawFor n i).toNat + 2 ^ leadingZeros n) * n < (UInt64.size + 1) * n := by
      rw [Nat.add_mul, Nat.mul_comm (2 ^ _), Nat.add_mul, Nat.one_mul, Nat.mul_comm UInt64.size]
      omega
    exact Nat.le_of_lt_succ (Nat.lt_of_mul_lt_mul_right hproduct)
  rw [Finset.filter_congr fun v _ => counts_and_number_iff hi hlt v, card_words hend,
    Nat.add_sub_cancel_left]

theorem card_counting (hn : 0 < n) (hlt : n < UInt64.size) :
    (Finset.univ.filter fun v : UInt64 => counts n v = true).card = n * 2 ^ leadingZeros n := by
  have hmaps : ∀ v ∈ Finset.univ.filter fun v : UInt64 => counts n v = true,
      number n v ∈ Finset.range n :=
    fun v _ => Finset.mem_range.2 (number_lt hn v)
  rw [Finset.card_eq_sum_card_fiberwise hmaps]
  have hfiber : ∀ i ∈ Finset.range n,
      ((Finset.univ.filter fun v : UInt64 => counts n v = true).filter
        fun v => number n v = i).card = 2 ^ leadingZeros n := by
    intro i hi
    rw [Finset.filter_filter, card_picking (Finset.mem_range.1 hi) hlt]
  rw [Finset.sum_const_nat hfiber, Finset.card_range]

/-! ## 3. How many draws a pick takes -/

theorem counts_zero (n : Nat) : counts n 0 = true := by
  simp [counts]

/-- A pick ends at the latest with a draw that is known to count. -/
theorem exists_pick_of_counts {draws : Draws} (hn : 0 < n) (more pos : Nat)
    (h : counts n (draws (pos + more)) = true) :
    ∃ i next, pick draws n hn (more + 1) pos = some (i, next) ∧ next ≤ pos + more + 1 := by
  induction more generalizing pos with
  | zero =>
    rw [Nat.add_zero] at h
    exact ⟨_, pos + 1, by rw [pick, if_pos h], Nat.le_refl _⟩
  | succ more ih =>
    by_cases hc : counts n (draws pos) = true
    · exact ⟨_, pos + 1, by rw [pick, if_pos hc], by omega⟩
    · rw [← Nat.add_assoc, Nat.add_right_comm] at h
      obtain ⟨i, next, hpick, hle⟩ := ih (pos + 1) h
      exact ⟨i, next, by rw [pick, if_neg hc, hpick], by omega⟩

/-- **With a script of `k` draws every pick ends within `k + 1` draws.** -/
theorem exists_pick_ofList (hn : 0 < n) (script : List UInt64) (pos : Nat) :
    ∃ i next, pick (ofList script) n hn (script.length - pos + 1) pos = some (i, next) ∧
      next ≤ pos + (script.length - pos) + 1 := by
  refine exists_pick_of_counts hn _ pos ?_
  have hbeyond : ofList script (pos + (script.length - pos)) = 0 :=
    List.getD_eq_default _ _ (by omega)
  rw [hbeyond]
  exact counts_zero n

/-- A draw that is passed over is one of the script, so behind it a pick takes one draw. -/
theorem Picks.le_ofList {script : List UInt64} {pos i next : Nat}
    (h : Picks (ofList script) n pos i next) : next ≤ max pos script.length + 1 := by
  induction h with
  | @counted pos _ => exact Nat.succ_le_succ (Nat.le_max_left pos script.length)
  | @passed pos _ _ hpassed _ ih =>
    have hscript : pos < script.length := by
      refine Nat.lt_of_not_le fun hbeyond => ?_
      have hzero : ofList script pos = 0 := List.getD_eq_default _ _ hbeyond
      rw [hzero, counts_zero] at hpassed
      cases hpassed
    omega

/-- Every pick comes to an end, wherever it starts. -/
def Settles (draws : Draws) : Prop :=
  ∀ n, 0 < n → ∀ pos, ∃ i next, draws.Picks n pos i next

theorem settles_ofList (script : List UInt64) : (ofList script).Settles := by
  intro n hn pos
  obtain ⟨i, next, hpick, -⟩ := exists_pick_ofList hn script pos
  exact ⟨i, next, picks_of_pick hpick⟩

/-! ## 4. Uniform picks -/

/-- **The pick among `n` alternatives is uniform, for every `n` of 64 bits.** -/
theorem pick_uniform (hn : 0 < n) (hlt : n < UInt64.size) :
    (∀ v : UInt64, counts n v = decide (v * UInt64.ofNat n ≤
      (UInt64.ofNat n <<< UInt64.ofBitVec (UInt64.ofNat n).toBitVec.clz) - 1)) ∧
    leadingZeros n = (UInt64.ofNat n).toBitVec.clz.toNat ∧
    (∀ i < n, (Finset.univ.filter fun v : UInt64 => counts n v = true ∧ number n v = i).card =
      2 ^ leadingZeros n) ∧
    (∀ draws pos i next, Picks draws n pos i next → i < n ∧
      ∀ rule : Rule, rule.productions.length = n → ∃ p, rule.productions[i]? = some p) ∧
    UInt64.size ≤ 2 * (Finset.univ.filter fun v : UInt64 => counts n v = true).card ∧
    counts n 0 = true ∧
    ∀ script : List UInt64, ∀ pos, ∃ i next,
      pick (ofList script) n hn (script.length - pos + 1) pos = some (i, next) ∧
        next ≤ pos + (script.length - pos) + 1 := by
  refine ⟨counts_eq_word hn hlt, leadingZeros_eq_clz hn hlt, fun i hi => card_picking hi hlt,
    fun draws pos i next h => ⟨h.lt hn, fun rule hrule => ?_⟩, ?_, counts_zero n,
    exists_pick_ofList hn⟩
  · have hi : i < rule.productions.length := by
      rw [hrule]
      exact h.lt hn
    exact ⟨rule.productions[i], List.getElem?_eq_getElem hi⟩
  · obtain ⟨hhigh, -⟩ := shifted_bounds hn hlt
    rw [card_counting hn hlt, size_eq]
    omega

theorem pick_uniform_three :
    0 < 3 ∧ 3 < UInt64.size ∧ leadingZeros 3 = 62 ∧
      (Finset.univ.filter fun v : UInt64 => counts 3 v = true ∧ number 3 v = 2).card = 2 ^ 62 := by
  have hn : 0 < 3 := by decide
  have hlt : 3 < UInt64.size := by decide
  have hzeros : leadingZeros 3 = 62 := by decide
  obtain ⟨-, -, hcard, -⟩ := pick_uniform hn hlt
  rw [hzeros] at hcard
  exact ⟨hn, hlt, hzeros, hcard 2 (by decide)⟩

end Sentences.Draws
