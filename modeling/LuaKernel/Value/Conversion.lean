import LuaKernel.Numeral.Float
import LuaKernel.Value.Basic

/-!
# Conversions

Numbers and strings convert into one another: a string that spells a numeral is a number to arithmetic,
and a number is its text to concatenation.
-/

namespace LuaKernel.Value

/-- The float reading: integers widen, strings are read as numerals. -/
def toFloat? : Value → Option Binary64
  | .float x => some x
  | .integer n => some (Binary64.ofInt64 n)
  | .string s => Numeral.float? s
  | _ => none

/-- The integer reading: floats have to be whole and in range. A string is read as an integer numeral,
and failing that as a float numeral with a whole value. -/
def toInteger? : Value → Option Int64
  | .integer n => some n
  | .float x => x.toInt64?
  | .string s => (Numeral.integer? s).or ((Numeral.float? s).bind Binary64.toInt64?)
  | _ => none

/-- The string reading: numbers are written out, other values have none. -/
def toString? : Value → Option Bytes
  | .string s => some s
  | .integer n => some (Integer.text n)
  | .float x => some x.text
  | _ => none

end LuaKernel.Value
