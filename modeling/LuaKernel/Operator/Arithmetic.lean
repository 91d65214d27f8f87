import LuaKernel.Fault
import LuaKernel.Value.Conversion

/-!
# Arithmetic on values

An operator's rule says which numbers it works on; the operands convert to them, the left one first, and
the first that does not convert is the one at fault. Only integer operands as such take the integer side
of a rule with both: a string that spells an integer is a float there.
-/

namespace LuaKernel.Value

/-- The operand's integer reading, or the operator's fault. -/
def integerOperand (op : ArithOp) (v : Value) : Except Fault Int64 :=
  match v.toInteger? with
  | some n => .ok n
  | none => .error (.arithmetic op v.kind)

/-- The operand's float reading, or the operator's fault. -/
def floatOperand (op : ArithOp) (v : Value) : Except Fault Binary64 :=
  match v.toFloat? with
  | some x => .ok x
  | none => .error (.arithmetic op v.kind)

/-- An operator on the float readings of two values. -/
def floatArith (op : ArithOp) (g : Binary64 → Binary64 → Binary64) (a b : Value) :
    Except Fault Value := do
  let x ← floatOperand op a
  let y ← floatOperand op b
  return .float (g x y)

/-- Applies an operator to two values. A unary operator is given its operand twice. -/
def arith (op : ArithOp) (a b : Value) : Except Fault Value :=
  match op.rule with
  | .integers f => do
    let m ← integerOperand op a
    let n ← integerOperand op b
    return .integer (f m n)
  | .floats g => floatArith op g a b
  | .numbers f g =>
    match a, b with
    | .integer m, .integer n =>
      match f m n with
      | some r => .ok (.integer r)
      | none => .error (.divideByZero op)
    | _, _ => floatArith op g a b

end LuaKernel.Value
