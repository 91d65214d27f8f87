import LuaKernel.Binary64.Nearest
import LuaKernel.Fault

/-!
# Comparison of values

Two integers compare exactly, two floats as doubles, and an integer with a float after it is rounded to a
double. Strings compare bytewise. Equality is defined between any two values; the order is not.
-/

namespace LuaKernel.Value

/-- Equality: numbers by value across integers and floats, other values by content. -/
def equal : Value → Value → Bool
  | .nil, .nil => true
  | .boolean a, .boolean b => a == b
  | .string s, .string t => s == t
  | .integer m, .integer n => m == n
  | .float x, .float y => x.eq y
  | .integer m, .float y => (Binary64.ofInt64 m).eq y
  | .float x, .integer n => (Binary64.ofInt64 n).eq x
  | _, _ => false

/-- Strictly less. -/
def less : Value → Value → Except Fault Bool
  | .string s, .string t => .ok (Bytes.cmp s t).isLT
  | .integer m, .integer n => .ok (m < n)
  | .integer m, .float y => .ok ((Binary64.ofInt64 m).lt y)
  | .float x, .float y => .ok (x.lt y)
  | .float x, .integer n => .ok (x.lt (Binary64.ofInt64 n))
  | a, b => .error (.comparison .lt a.kind b.kind)

/-- Less or equal. -/
def lessEq : Value → Value → Except Fault Bool
  | .string s, .string t => .ok (Bytes.cmp s t).isLE
  | .integer m, .integer n => .ok (m ≤ n)
  | .integer m, .float y => .ok ((Binary64.ofInt64 m).le y)
  | .float x, .float y => .ok (x.le y)
  | .float x, .integer n => .ok (x.le (Binary64.ofInt64 n))
  | a, b => .error (.comparison .le a.kind b.kind)

/-- Applies a comparison operator to two values. -/
def compare (op : CompareOp) (a b : Value) : Except Fault Bool :=
  match op with
  | .eq => .ok (equal a b)
  | .lt => less a b
  | .le => lessEq a b

end LuaKernel.Value
