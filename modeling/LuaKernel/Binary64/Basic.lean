/-!
# Binary64 numbers

A `Binary64` is an IEEE 754 double held as its 64 bits, so that the sign and payload of a NaN survive
storage. The pattern below the sign bit is its *magnitude*: magnitudes below `infinity` are finite, that
of an infinity is `infinity`, and the ones above are NaNs.

Every finite number is a whole multiple of the least positive one, `2 ^ (-1074)`. That multiple
(`unitsOf` of the magnitude, `units` with its sign) is what arithmetic is exact in.
-/

namespace LuaKernel

/-- An IEEE 754 double, as its bits. -/
structure Binary64 where
  bits : UInt64
deriving DecidableEq, Inhabited, Repr

namespace Binary64

/-- The sign bit as a number: `2 ^ 63`. -/
def signBit : Nat := 0x8000000000000000

/-- How many fractions go with one exponent: `2 ^ 52`. -/
def fractionSize : Nat := 0x10000000000000

/-- The magnitude of an infinity: all exponent bits set, no fraction. -/
def infinityMagnitude : Nat := 0x7ff0000000000000

/-- The sign bit is set. -/
def isNegative (x : Binary64) : Bool := signBit ≤ x.bits.toNat

/-- The bits below the sign. -/
def magnitude (x : Binary64) : Nat := x.bits.toNat % signBit

/-- The number with the given sign bit and magnitude. -/
def ofMagnitude (negative : Bool) (m : Nat) : Binary64 :=
  ⟨UInt64.ofNat (if negative then signBit + m else m)⟩

def isNaN (x : Binary64) : Bool := infinityMagnitude < x.magnitude
def isInfinite (x : Binary64) : Bool := x.magnitude = infinityMagnitude
def isFinite (x : Binary64) : Bool := x.magnitude < infinityMagnitude

/-- A NaN with the first bit of its fraction clear. -/
def isSignaling (x : Binary64) : Bool := x.isNaN && x.magnitude < 0x7ff8000000000000

/-- Zero of either sign. -/
def isZero (x : Binary64) : Bool := x.magnitude = 0

/-- The quiet NaN with no payload. -/
def nan : Binary64 := ⟨0x7ff8000000000000⟩
def zero (negative : Bool) : Binary64 := ofMagnitude negative 0
def infinity (negative : Bool) : Binary64 := ofMagnitude negative infinityMagnitude

/-- The same number with the other sign. -/
def neg (x : Binary64) : Binary64 := ofMagnitude (!x.isNegative) x.magnitude

/-! ## Exact values -/

/-- How many units make one. -/
def unitsPerOne : Nat := 1 <<< 1074

/-- The value of a finite magnitude, in units of `2 ^ (-1074)`. An exponent field `e` of at least one
stands for the factor `2 ^ (e - 1)` and an implicit leading bit; a zero field has neither. -/
def unitsOf (m : Nat) : Nat :=
  if m < fractionSize then m
  else (fractionSize + m % fractionSize) <<< (m / fractionSize - 1)

/-- The absolute value of a finite number, in units. -/
def absUnits (x : Binary64) : Nat := unitsOf x.magnitude

/-- The value of a finite number, in units. -/
def units (x : Binary64) : Int := if x.isNegative then -x.absUnits else x.absUnits

end Binary64

end LuaKernel
