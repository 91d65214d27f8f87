import LuaKernel.Operator.Arithmetic
import LuaKernel.Operator.Comparison
import LuaKernel.Stack

/-!
# The host's interface

What a host does with the machine: move values about on the stack, look at them, and apply operators to
them. Looking at an index that addresses no value is no fault; it reads as nil, or as the kind `none`.
-/

namespace LuaKernel

/-! ## Looking at values -/

namespace Stack

/-- The kind of the value at an index; `none` where there is no value. -/
def kindAt (s : Stack) (i : Int) : Kind := ((s.slot? i).map Value.kind).getD .none

def isNoneAt (s : Stack) (i : Int) : Bool := s.kindAt i = .none
def isNilAt (s : Stack) (i : Int) : Bool := s.kindAt i = .nil
def isNoneOrNilAt (s : Stack) (i : Int) : Bool := s.isNoneAt i || s.isNilAt i
def isBooleanAt (s : Stack) (i : Int) : Bool := s.kindAt i = .boolean

/-- An integer as such; a float with a whole value is none. -/
def isIntegerAt (s : Stack) (i : Int) : Bool := (s.valueAt i).isInteger

/-- The float reading of the value at an index. -/
def floatAt? (s : Stack) (i : Int) : Option Binary64 := (s.slot? i).bind Value.toFloat?

/-- The float reading, zero where there is none. -/
def floatAt (s : Stack) (i : Int) : Binary64 := (s.floatAt? i).getD (.zero false)

/-- The integer reading of the value at an index. -/
def integerAt? (s : Stack) (i : Int) : Option Int64 := (s.slot? i).bind Value.toInteger?

/-- The integer reading, zero where there is none. -/
def integerAt (s : Stack) (i : Int) : Int64 := (s.integerAt? i).getD 0

/-- A value with a float reading. -/
def isNumberAt (s : Stack) (i : Int) : Bool := (s.floatAt? i).isSome

/-- A string or a number, which has a string reading. -/
def isStringAt (s : Stack) (i : Int) : Bool := s.kindAt i = .string || s.kindAt i = .number

def booleanAt (s : Stack) (i : Int) : Bool := (s.valueAt i).isTruthy

end Stack

namespace Machine

/-- The room of a new machine. -/
def defaultCapacity : Nat := 20

/-- A new machine's stack. -/
def initial : Stack := Stack.ofCapacity defaultCapacity

/-! ## Moving values -/

/-- Drops `n` values. -/
def pop (n : Nat) : StackM Unit := do
  let s ← get
  if s.top < n then throw .stackUnderflow else Stack.setTop ((s.top - n : Nat) : Int)

/-- Copies a value into another's slot. -/
def copy (source target : Int) : StackM Unit := do
  let s ← get
  Stack.store target (s.valueAt source)

/-- Pushes a copy of a value. -/
def pushValue (i : Int) : StackM Unit := do
  let s ← get
  Stack.push (s.valueAt i)

/-- Takes the top value and writes it at an index of the stack without it. -/
def replace (i : Int) : StackM Unit := do
  let v ← Stack.pop
  Stack.store i v

/-- Moves the top value down to an index, and the ones from there on up by one. -/
def insert (i : Int) : StackM Unit := Stack.rotate i 1

/-- Removes the value at an index, and moves the ones above down by one. -/
def remove (i : Int) : StackM Unit := do
  Stack.rotate i (-1)
  pop 1

/-! ## Strings in place -/

/-- The string reading of the value at an index. A number is replaced by its text. -/
def stringAt? (i : Int) : StackM (Option Bytes) := do
  let s ← get
  match s.slot? i with
  | none => return none
  | some (.string t) => return some t
  | some v =>
    match v.toString? with
    | none => return none
    | some t =>
      let _ ← Stack.overwrite i (.string t)
      return some t

/-- The string reading in place, empty where there is none. -/
def stringAt (i : Int) : StackM Bytes := return (← stringAt? i).getD []

/-! ## Operators -/

/-- Takes an operator's operands from the stack and pushes the result. A unary operator takes one. When
the operands are at fault, they stay taken. -/
def arith (op : ArithOp) : StackM Unit := do
  let s ← get
  if s.top < (if op.isUnary then 1 else 2) then throw .stackUnderflow
  else
    let b ← Stack.pop
    let a ← if op.isUnary then pure b else Stack.pop
    let r ← ofExcept (Value.arith op a b)
    Stack.push r

/-- Compares the values at two indices. -/
def compare (i j : Int) (op : CompareOp) : StackM Bool := do
  let s ← get
  ofExcept (Value.compare op (s.valueAt i) (s.valueAt j))

/-- Pushes the length of the string at an index. -/
def length (i : Int) : StackM Unit := do
  let s ← get
  match s.valueAt i with
  | .string t => Stack.push (.integer (Int64.ofNat t.length))
  | v => throw (.length v.kind)

/-- An operand's string reading, or its fault. -/
def concatOperand (v : Value) : Except Fault Bytes :=
  match v.toString? with
  | some t => .ok t
  | none => .error (.concatenation v.kind)

/-- The operands' strings one after another; the first operand without one is at fault. -/
def join (vs : List Value) : Except Fault Bytes := return (← vs.mapM concatOperand).flatten

/-- Replaces the top `n` values by their concatenation: the empty string for none, and one value stays
as it is, whatever it is. -/
def concat (n : Nat) : StackM Unit := do
  let s ← get
  if n = 0 then Stack.push (.string [])
  else if s.top < n then throw .stackUnderflow
  else if n = 1 then return
  else
    let t ← ofExcept (join (s.values.drop (s.top - n)))
    pop n
    Stack.push (.string t)

end Machine

end LuaKernel
