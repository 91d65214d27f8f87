import LuaKernel.Binary64.Arithmetic
import LuaKernel.Integer

/-!
# Operators

The arithmetic, bitwise and comparison operators, in the order of the numbers hosts know them by, with
their spelling. `ArithOp.rule` is the table of what each arithmetic operator computes on which numbers.
-/

namespace LuaKernel

/-- The arithmetic and bitwise operators. -/
inductive ArithOp where
  | add | sub | mul | mod | pow | div | idiv
  | band | bor | bxor | shl | shr | unm | bnot
deriving DecidableEq, Repr

/-- What an operator computes, and in which numbers. A unary operator looks at its first operand. -/
inductive ArithRule where
  /-- On integers only: other operands have to convert to integers. -/
  | integers (f : Int64 → Int64 → Int64)
  /-- On floats only: integers widen. -/
  | floats (g : Binary64 → Binary64 → Binary64)
  /-- On integers when both operands are, with `none` for a zero divisor; on floats otherwise. -/
  | numbers (f : Int64 → Int64 → Option Int64) (g : Binary64 → Binary64 → Binary64)

namespace ArithOp

def all : List ArithOp :=
  [.add, .sub, .mul, .mod, .pow, .div, .idiv, .band, .bor, .bxor, .shl, .shr, .unm, .bnot]

/-- The operator's number. -/
def number (op : ArithOp) : Nat := op.ctorIdx

/-- The operator with a number. -/
def ofNumber? (n : Nat) : Option ArithOp := all[n]?

/-- How the operator is spelt. A unary operator shares the spelling of a binary one. -/
def symbol : ArithOp → String
  | .add => "+"
  | .sub | .unm => "-"
  | .mul => "*"
  | .mod => "%"
  | .pow => "^"
  | .div => "/"
  | .idiv => "//"
  | .band => "&"
  | .bor => "|"
  | .bxor | .bnot => "~"
  | .shl => "<<"
  | .shr => ">>"

/-- Takes one operand from the stack. -/
def isUnary : ArithOp → Bool
  | .unm | .bnot => true
  | _ => false

/-- The operator's rule. -/
def rule : ArithOp → ArithRule
  | .add => .numbers (fun a b => some (a + b)) Binary64.add
  | .sub => .numbers (fun a b => some (a - b)) Binary64.sub
  | .mul => .numbers (fun a b => some (a * b)) Binary64.mul
  | .mod => .numbers Integer.modulo? Binary64.modulo
  | .idiv => .numbers Integer.floorDiv? Binary64.floorDiv
  | .unm => .numbers (fun a _ => some (-a)) (fun x _ => x.neg)
  | .pow => .floats Binary64.pow
  | .div => .floats Binary64.div
  | .band => .integers (· &&& ·)
  | .bor => .integers (· ||| ·)
  | .bxor => .integers (· ^^^ ·)
  | .shl => .integers Integer.shiftLeft
  | .shr => .integers Integer.shiftRight
  | .bnot => .integers (fun a _ => ~~~a)

/-- Works on the bits of integers only. -/
def isBitwise (op : ArithOp) : Bool :=
  match op.rule with
  | .integers _ => true
  | _ => false

theorem all_getElem? (op : ArithOp) : all[op.number]? = some op := by cases op <;> rfl

end ArithOp

/-- The comparison operators. -/
inductive CompareOp where
  | eq | lt | le
deriving DecidableEq, Repr

namespace CompareOp

def all : List CompareOp := [.eq, .lt, .le]

/-- The operator's number. -/
def number (op : CompareOp) : Nat := op.ctorIdx

/-- The operator with a number. -/
def ofNumber? (n : Nat) : Option CompareOp := all[n]?

/-- How the operator is spelt. -/
def symbol : CompareOp → String
  | .eq => "=="
  | .lt => "<"
  | .le => "<="

theorem all_getElem? (op : CompareOp) : all[op.number]? = some op := by cases op <;> rfl

end CompareOp

end LuaKernel
