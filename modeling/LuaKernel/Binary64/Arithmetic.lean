import LuaKernel.Binary64.Nearest
import LuaKernel.Binary64.Order

/-!
# Arithmetic on doubles

Each operation settles NaNs and infinities first; on finite operands it computes the exact result in
units and rounds once. The power is the machine's own, whose last bit no short rule gives.

Which sign a NaN has that an operation makes, or hands on from an operand, is left open by the arithmetic of
doubles, and `text` shows it. Here it is always the positive quiet NaN, so a text of such a NaN is one of those
that a machine may print. Negation alone is exact on NaNs: it changes their sign.
-/

namespace LuaKernel.Binary64

/-- The sum. Of two numbers that cancel it is the positive zero, unless both are negative zeros. -/
def add (x y : Binary64) : Binary64 :=
  if x.isNaN || y.isNaN then nan
  else if x.isInfinite then
    if y.isInfinite && x.isNegative != y.isNegative then nan else x
  else if y.isInfinite then y
  else
    let s := x.units + y.units
    if s = 0 then zero (x.isNegative && y.isNegative) else nearest (s < 0) s.natAbs 1

/-- The difference. -/
def sub (x y : Binary64) : Binary64 := add x y.neg

/-- The product. -/
def mul (x y : Binary64) : Binary64 :=
  let negative := x.isNegative != y.isNegative
  if x.isNaN || y.isNaN then nan
  else if x.isInfinite || y.isInfinite then
    if x.isZero || y.isZero then nan else infinity negative
  else nearest negative (x.absUnits * y.absUnits) unitsPerOne

/-- The quotient. -/
def div (x y : Binary64) : Binary64 :=
  let negative := x.isNegative != y.isNegative
  if x.isNaN || y.isNaN then nan
  else if x.isInfinite then
    if y.isInfinite then nan else infinity negative
  else if y.isInfinite then zero negative
  else if y.isZero then
    if x.isZero then nan else infinity negative
  else nearest negative (x.absUnits * unitsPerOne) y.absUnits

/-- The greatest whole number that is not above `x`; a zero keeps its sign. -/
def floor (x : Binary64) : Binary64 :=
  if x.isFinite then
    nearest x.isNegative ((x.units.fdiv unitsPerOne).natAbs * unitsPerOne) 1
  else x

/-- The quotient rounded to a whole number below it. -/
def floorDiv (x y : Binary64) : Binary64 := (div x y).floor

/-- What whole multiples of `y` leave of `x`, with the sign of `x`. This is exact. -/
def remainder (x y : Binary64) : Binary64 :=
  if x.isNaN || y.isNaN || x.isInfinite || y.isZero then nan
  else if y.isInfinite then x
  else nearest x.isNegative (x.absUnits % y.absUnits) 1

/-- The remainder moved to the divisor's sign. A zero remainder stays as it is. -/
def modulo (x y : Binary64) : Binary64 :=
  let r := remainder x y
  if !r.isZero && r.isPositive != y.isPositive then add r y else r

/-- The power, as the machine computes it. A quiet NaN can still have a power, as `x ^ 0` and `1 ^ y` are
one for any `x` and `y`; a signaling one has none. -/
def pow (x y : Binary64) : Binary64 :=
  if x.isSignaling || y.isSignaling then nan
  else ⟨((Float.ofBits x.bits).pow (Float.ofBits y.bits)).toBits⟩

/-- A power of two. A negative exponent gives the reciprocal of the positive power, and so zero where
that power is infinite. -/
def twoPow (n : Int) : Binary64 :=
  if 0 ≤ n then twoPowNat n.toNat else div (twoPowNat 0) (twoPowNat (-n).toNat)

end LuaKernel.Binary64
