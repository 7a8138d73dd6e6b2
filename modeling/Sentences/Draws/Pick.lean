import Sentences.Draws.Walk

/-!
# Picking one of `n` alternatives

A draw `v` picks the number `v * n / 2 ^ 64`, the high half of the product, which is below `n`.
So that every number is picked by equally many draws, a draw counts only if the low half of the
product is at most `zone n`: one less than `n` moved up until its highest bit is the highest of
64. Draws that do not count are passed over. With `n = 1` half of the draws are passed over too.
-/

namespace Sentences.Draws

/-- How many of the 64 bits stand before the highest bit of `n`. -/
def leadingZeros (n : Nat) : Nat :=
  63 - n.log2

/-- The greatest low half that counts. -/
def zone (n : Nat) : Nat :=
  (n <<< leadingZeros n) - 1

/-- Whether a draw counts for a pick among `n`. -/
def counts (n : Nat) (v : UInt64) : Bool :=
  decide (v.toNat * n % UInt64.size ≤ zone n)

/-- The number below `n` that a draw stands for. -/
def number (n : Nat) (v : UInt64) : Nat :=
  v.toNat * n / UInt64.size

theorem number_lt {n : Nat} (h : 0 < n) (v : UInt64) : number n v < n :=
  Nat.div_lt_of_lt_mul ((Nat.mul_lt_mul_right h).2 v.toNat_lt_size)

/-- The pick of the first draw, from a position on, that counts, and the position after it. -/
def pick (draws : Draws) (n : Nat) (h : 0 < n) : Nat → Nat → Option (Fin n × Nat)
  | 0, _ => none
  | fuel + 1, pos =>
    if counts n (draws pos) then some (⟨number n (draws pos), number_lt h _⟩, pos + 1)
    else pick draws n h fuel (pos + 1)

/-- A pick as a walk, which never fails. -/
def choose {ε : Type} (draws : Draws) (n : Nat) (h : 0 < n) (fuel : Nat) : Walk ε (Fin n) :=
  fun pos => (pick draws n h fuel pos).map fun r => (.ok r.1, r.2)

end Sentences.Draws
