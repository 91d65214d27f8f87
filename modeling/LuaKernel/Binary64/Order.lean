import LuaKernel.Binary64.Basic

/-!
# Order of doubles

Below the sign bit the patterns are in the order of the values they stand for, infinities included, so
doubles compare by their signed magnitude. The two zeros share one, and a NaN is equal to nothing and
before or after nothing.
-/

namespace LuaKernel.Binary64

/-- The signed magnitude: the place of a number on the line of doubles, zero for both zeros. -/
def ordinal (x : Binary64) : Int := if x.isNegative then -x.magnitude else x.magnitude

/-- Neither is a NaN. -/
def ordered (x y : Binary64) : Bool := !x.isNaN && !y.isNaN

def eq (x y : Binary64) : Bool := ordered x y && x.ordinal == y.ordinal
def lt (x y : Binary64) : Bool := ordered x y && x.ordinal < y.ordinal
def le (x y : Binary64) : Bool := ordered x y && x.ordinal ≤ y.ordinal

/-- Above zero. -/
def isPositive (x : Binary64) : Bool := lt (zero false) x

end LuaKernel.Binary64
