import LuaKernel.Instruction.Basic
import LuaKernel.Value.Basic

/-!
# Function prototypes

A compiled function is a `FunctionBody` (code, constants and tables for the debugger); the functions
defined inside it are the children of its node in a `Prototype` tree.
-/

namespace LuaKernel

/-- Where a closure finds an upvalue: in a register of the enclosing function, or among its upvalues. -/
structure Upvalue where
  inStack : Bool
  index : UInt8
deriving DecidableEq, Repr

/-- A local variable and the instructions it is alive at: from `startPc` on and before `endPc`. -/
structure LocalVariable where
  name : Bytes
  startPc : UInt32
  endPc : UInt32
deriving DecidableEq, Repr

/-- A function without the functions inside it. Without debug information the source and the last three
tables are empty. -/
structure FunctionBody where
  source : Option Bytes := none
  lineDefined : UInt32 := 0
  lastLineDefined : UInt32 := 0
  paramCount : UInt8 := 0
  isVararg : Bool := false
  maxStackSize : UInt8 := 0
  code : List Instruction := []
  constants : List Value := []
  upvalues : List Upvalue := []
  /-- The source line of each instruction. -/
  lines : List UInt32 := []
  locals : List LocalVariable := []
  upvalueNames : List Bytes := []
deriving DecidableEq, Inhabited, Repr

/-- A function and the functions inside it, in order. -/
inductive Prototype where
  | mk (body : FunctionBody) (children : List Prototype)
deriving Inhabited, Repr

/-! ## Queries on a function -/

namespace FunctionBody

/-- The main function of a chunk is defined at no line. -/
def isMain (f : FunctionBody) : Bool := f.lineDefined == 0

/-- The source line of an instruction. -/
def lineAt? (f : FunctionBody) (pc : Nat) : Option UInt32 := f.lines[pc]?

/-- The name of an upvalue. -/
def upvalueName? (f : FunctionBody) (i : Nat) : Option Bytes := f.upvalueNames[i]?

/-- Passes over `skip` variables alive at `pc` and names the next. Variables are listed by where they
start, so the first that starts later ends the search. -/
def activeAfter? (pc : UInt32) : List LocalVariable → (skip : Nat) → Option Bytes
  | [], _ => none
  | v :: vs, skip =>
    if pc < v.startPc then none
    else if pc < v.endPc then
      match skip with
      | 0 => some v.name
      | skip + 1 => activeAfter? pc vs skip
    else activeAfter? pc vs skip

/-- The name of the `n`-th variable alive at an instruction, counted from one. -/
def localName? (f : FunctionBody) (n : Nat) (pc : UInt32) : Option Bytes :=
  match n with
  | 0 => none
  | n + 1 => activeAfter? pc f.locals n

end FunctionBody

/-! ## Trees -/

namespace Prototype

def body : Prototype → FunctionBody
  | .mk body _ => body

def children : Prototype → List Prototype
  | .mk _ children => children

mutual

/-- The number of functions of a tree. -/
def count : Prototype → Nat
  | .mk _ children => 1 + countAll children

def countAll : List Prototype → Nat
  | [] => 0
  | p :: ps => count p + countAll ps

end

end Prototype

end LuaKernel
