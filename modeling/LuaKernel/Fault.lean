import LuaKernel.Operator.Basic
import LuaKernel.Value.Basic

/-!
# Faults

Why an operation of the machine did not do its work. A fault ends that operation alone; the machine can
be used further. `Fault.message` is the wording of each cause.
-/

namespace LuaKernel

/-- A cause of failure. -/
inductive Fault where
  /-- No room for a push. -/
  | stackOverflow
  /-- Fewer values than an operation takes, or a negative height. -/
  | stackUnderflow
  /-- An index that addresses no value, as the caller gave it. -/
  | invalidIndex (i : Int)
  /-- An operand that is no number to an arithmetic operator, or no integer to a bitwise one. -/
  | arithmetic (op : ArithOp) (operand : Kind)
  /-- An integer quotient or remainder by zero. -/
  | divideByZero (op : ArithOp)
  /-- Two values that have no order. -/
  | comparison (op : CompareOp) (lhs rhs : Kind)
  /-- A value that has no length. -/
  | length (operand : Kind)
  /-- A value that has no string reading. -/
  | concatenation (operand : Kind)
deriving DecidableEq, Repr

namespace Fault

/-- The wording of a fault. A number that a bitwise operator refuses is told apart from other values. -/
def message : Fault → String
  | .stackOverflow => "stack overflow"
  | .stackUnderflow => "stack underflow"
  | .invalidIndex i => "invalid index " ++ Text.lossy (Integer.intText i)
  | .arithmetic op operand =>
    if op.isBitwise then
      if operand = .number then "number has no integer representation"
      else s!"attempt to perform bitwise operation on a {operand.name} value"
    else s!"attempt to perform arithmetic on a {operand.name} value"
  | .divideByZero op => s!"attempt to perform 'n{op.symbol}0'"
  | .comparison _ lhs rhs =>
    if lhs = rhs then s!"attempt to compare two {lhs.name} values"
    else s!"attempt to compare {lhs.name} with {rhs.name}"
  | .length operand => s!"attempt to get length of a {operand.name} value"
  | .concatenation operand => s!"attempt to concatenate a {operand.name} value"

end Fault

end LuaKernel
