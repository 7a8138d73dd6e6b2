import Sentences.Json.Fault
import Sentences.Text.Decimal

/-!
# JSON numbers

Only natural numbers below `2 ^ 64`, written without sign, point and exponent, are of use here.
All other numbers are still numbers, provided that they lie in the range of double precision.

The range is tested on a decimal significand and an exponent. The significand takes up digits as
long as it stays below `2 ^ 64`; digits of the whole part that find no room raise the exponent,
digits of the fraction that do lower it. The number is out of range when the product of the
significand and the power of ten, each rounded to a double, rounds to infinity.
-/

namespace Sentences.Json

/-- A number as it is written. -/
structure Numeral where
  negative : Bool
  whole : Text
  fraction : Text
  /-- Sign, `true` for a negative one, and digits of the exponent. -/
  exponent : Option (Bool × Text)

/-- What a number is worth. -/
inductive Number where
  | natural (n : UInt64)
  | other

/-! ## 1. Doubles -/

/-- A natural number rounded to 53 significant bits, half-way cases to the even neighbour. -/
def nearestDouble (n : Nat) : Nat :=
  let unit := 1 <<< (n.log2 + 1 - 53)
  let low := n / unit * unit
  let twice := 2 * (n - low)
  if twice < unit ∨ twice = unit ∧ n / unit % 2 = 0 then low else low + unit

/-- The least number that rounds to infinity: half a unit above the greatest double. -/
def infinity : Nat := (1 <<< 1024) - (1 <<< 970)

/-- Whether a significand times a power of ten exceeds the doubles. -/
def exceedsDoubles (significand : Nat) (exponent : Int) : Bool :=
  decide (significand ≠ 0) &&
    (decide (308 < exponent) ||
      decide (0 ≤ exponent) &&
        decide (infinity ≤ nearestDouble significand * nearestDouble (Nat.pow 10 exponent.toNat)))

/-! ## 2. Numerals -/

/-- The significand after as many digits as it has room for, and the digits left over. -/
def takeDigits (significand : Nat) : Text → Nat × Text
  | [] => (significand, [])
  | d :: rest =>
    let longer := 10 * significand + (d.toNat - '0'.toNat)
    if longer < UInt64.size then takeDigits longer rest else (significand, d :: rest)

namespace Numeral

/-- The exponent as it is written; zero if none is. -/
def writtenExponent (n : Numeral) : Int :=
  match n.exponent with
  | none => 0
  | some (negative, digits) =>
    let size : Int := Nat.ofDigitChars 10 digits 0
    if negative then -size else size

/-- What the number is worth; one out of range is malformed. -/
def value (n : Numeral) : Except Fault Number :=
  let whole := takeDigits 0 n.whole
  if n.fraction = [] ∧ n.exponent = none ∧ whole.2 = [] then
    .ok (if n.negative then .other else .natural (UInt64.ofNat whole.1))
  else
    let fraction := takeDigits whole.1 n.fraction
    let exponent := n.writtenExponent + whole.2.length
      - (n.fraction.length - fraction.2.length : Nat)
    if exceedsDoubles fraction.1 exponent then .error .malformed else .ok .other

end Numeral

end Sentences.Json
