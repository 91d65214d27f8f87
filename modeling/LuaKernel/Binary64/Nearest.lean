import LuaKernel.Binary64.Basic
import LuaKernel.Integer

/-!
# Rounding to the nearest double

`Binary64.nearest` takes a sign and an exact ratio of units to the nearest double, a tie to the even
one. Integers, decimals and the results of exact arithmetic all go through it. The other direction,
`toInt64?`, is exact or fails.
-/

namespace LuaKernel

/-- `num / den` rounded to the nearest whole number, a half to the even neighbour. -/
def roundDiv (num den : Nat) : Nat :=
  let q := num / den
  let r := num % den
  if 2 * r < den then q
  else if den < 2 * r then q + 1
  else q + q % 2

namespace Binary64

/-- The magnitude nearest to `num / den` units. The ratio is scaled down until 53 bits hold its whole
part, and what is rounded then is the fraction field: a carry out of it steps the exponent field, so that
magnitudes add up as plain numbers. From the greatest finite magnitude on, the next step is infinity. -/
def nearestMagnitude (num den : Nat) : Nat :=
  let shift := (num / den).log2 - 52
  min (shift * fractionSize + roundDiv num (den <<< shift)) infinityMagnitude

/-- The double nearest to `num / den` units under a sign. -/
def nearest (negative : Bool) (num den : Nat) : Binary64 :=
  ofMagnitude negative (nearestMagnitude num den)

/-! ## Integers -/

/-- The double nearest to an integer. -/
def ofInt (n : Int) : Binary64 := nearest (n < 0) (n.natAbs * unitsPerOne) 1

/-- The double nearest to a machine integer. -/
def ofInt64 (n : Int64) : Binary64 := ofInt n.toInt

/-- The machine integer that a double equals. -/
def toInt64? (x : Binary64) : Option Int64 :=
  if x.isFinite ∧ x.units % unitsPerOne = 0 then
    Integer.ofInt? (x.units / unitsPerOne)
  else none

/-! ## Powers -/

/-- A power of two with a natural exponent; infinity from `2 ^ 1024` on. -/
def twoPowNat (n : Nat) : Binary64 := nearest false (unitsPerOne <<< min n 1024) 1

/-- The double nearest to `digits * 10 ^ exponent`. Exponents far outside the format are settled by the
number of digits, with no power computed. -/
def ofScientific (negative : Bool) (digits : Nat) (exponent : Int) : Binary64 :=
  if digits = 0 then zero negative
  else if 400 < exponent then infinity negative
  else if exponent + digits.log2 + 1 < -400 then zero negative
  else if 0 ≤ exponent then nearest negative (digits * Nat.pow 10 exponent.toNat * unitsPerOne) 1
  else nearest negative (digits * unitsPerOne) (Nat.pow 10 (-exponent).toNat)

end Binary64

end LuaKernel
