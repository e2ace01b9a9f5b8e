import Mathlib.Data.Int.Log
import Mathlib.Data.Rat.Floor

/-!
# Arithmetic in doubles

A result is rounded to the nearest number of 53 bits, and a tie to the even
one. The numbers here are not negative and none is small enough to be
subnormal; only an integer that is converted can be too large.
-/

namespace LlmService.Doubles

/-- The nearest integer; a tie goes to the even one. -/
def roundEven (x : ℚ) : ℤ :=
  if x - ⌊x⌋ < 1 / 2 then ⌊x⌋
  else if 1 / 2 < x - ⌊x⌋ then ⌊x⌋ + 1
  else ⌊x⌋ + ⌊x⌋ % 2

/-- The value of the last of 53 bits. -/
def lastBit (x : ℚ) : ℚ := 2 ^ (Int.log 2 x - 52)

/-- The double nearest to a number. -/
def nearest (x : ℚ) : ℚ := roundEven (x / lastBit x) * lastBit x

/-- An integer as a double, unless it is too large for one. -/
def ofInt (n : Nat) : Option ℚ := if nearest n < 2 ^ 1024 then some (nearest n) else none

/-- Ties go to the even one of two neighbours. -/
example : (nearest (2 ^ 53 + 1), nearest (2 ^ 53 + 3)) = (2 ^ 53, 2 ^ 53 + 4) := by decide +kernel

/-- `0.1 + 0.2` is not `0.3`. -/
example : nearest (nearest (1 / 10) + nearest (2 / 10)) ≠ nearest (3 / 10) := by decide +kernel

end LlmService.Doubles
