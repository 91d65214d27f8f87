/-!
# Opcodes

The 47 operations of the bytecode in the order of their numbers, with the layout of their operands and
what they do with each.
-/

namespace LuaKernel

/-- How the bits above the opcode are divided. -/
inductive Layout where
  /-- Three operands A, B and C. -/
  | abc
  /-- A and a wide operand Bx. -/
  | abx
  /-- A and a wide operand sBx with a sign. -/
  | asbx
  /-- One operand Ax over all the bits. -/
  | ax
deriving DecidableEq, Repr

/-- What an instruction takes its operand B or C for. -/
inductive OperandUse where
  | unused
  | plain
  | register
  /-- A register, or a constant if the mark bit is set. -/
  | registerOrConstant
deriving DecidableEq, Repr

/-- The operations. -/
inductive Opcode where
  | move | loadK | loadKX | loadBool | loadNil
  | getUpval | getTabUp | getTable | setTabUp | setUpval | setTable | newTable | self
  | add | sub | mul | mod | pow | div | idiv | band | bor | bxor | shl | shr | unm | bnot
  | not | len | concat
  | jmp | eq | lt | le | test | testSet | call | tailCall | ret
  | forLoop | forPrep | tforCall | tforLoop
  | setList | closure | varArg | extraArg
deriving DecidableEq, Repr

/-- What is known of an operation before it runs. -/
structure OpcodeInfo where
  /-- May skip the next instruction. -/
  isTest : Bool
  /-- Writes register A. -/
  setsA : Bool
  b : OperandUse
  c : OperandUse
  layout : Layout
  mnemonic : String
deriving DecidableEq, Repr

namespace Opcode

/-- The opcode's number. -/
def number (op : Opcode) : Nat := op.ctorIdx

/-- The opcodes in the order of their numbers. -/
def all : List Opcode :=
  [.move, .loadK, .loadKX, .loadBool, .loadNil,
   .getUpval, .getTabUp, .getTable, .setTabUp, .setUpval, .setTable, .newTable, .self,
   .add, .sub, .mul, .mod, .pow, .div, .idiv, .band, .bor, .bxor, .shl, .shr, .unm, .bnot,
   .not, .len, .concat,
   .jmp, .eq, .lt, .le, .test, .testSet, .call, .tailCall, .ret,
   .forLoop, .forPrep, .tforCall, .tforLoop,
   .setList, .closure, .varArg, .extraArg]

/-- The opcode with a number; the numbers from 47 on are not assigned. -/
def ofNumber? (n : Nat) : Option Opcode := all[n]?

/-- What is known of an opcode. -/
def info : Opcode → OpcodeInfo
  | .move => ⟨false, true, .register, .unused, .abc, "MOVE"⟩
  | .loadK => ⟨false, true, .registerOrConstant, .unused, .abx, "LOADK"⟩
  | .loadKX => ⟨false, true, .unused, .unused, .abx, "LOADKX"⟩
  | .loadBool => ⟨false, true, .plain, .plain, .abc, "LOADBOOL"⟩
  | .loadNil => ⟨false, true, .plain, .unused, .abc, "LOADNIL"⟩
  | .getUpval => ⟨false, true, .plain, .unused, .abc, "GETUPVAL"⟩
  | .getTabUp => ⟨false, true, .plain, .registerOrConstant, .abc, "GETTABUP"⟩
  | .getTable => ⟨false, true, .register, .registerOrConstant, .abc, "GETTABLE"⟩
  | .setTabUp => ⟨false, false, .registerOrConstant, .registerOrConstant, .abc, "SETTABUP"⟩
  | .setUpval => ⟨false, false, .plain, .unused, .abc, "SETUPVAL"⟩
  | .setTable => ⟨false, false, .registerOrConstant, .registerOrConstant, .abc, "SETTABLE"⟩
  | .newTable => ⟨false, true, .plain, .plain, .abc, "NEWTABLE"⟩
  | .self => ⟨false, true, .register, .registerOrConstant, .abc, "SELF"⟩
  | .add => ⟨false, true, .registerOrConstant, .registerOrConstant, .abc, "ADD"⟩
  | .sub => ⟨false, true, .registerOrConstant, .registerOrConstant, .abc, "SUB"⟩
  | .mul => ⟨false, true, .registerOrConstant, .registerOrConstant, .abc, "MUL"⟩
  | .mod => ⟨false, true, .registerOrConstant, .registerOrConstant, .abc, "MOD"⟩
  | .pow => ⟨false, true, .registerOrConstant, .registerOrConstant, .abc, "POW"⟩
  | .div => ⟨false, true, .registerOrConstant, .registerOrConstant, .abc, "DIV"⟩
  | .idiv => ⟨false, true, .registerOrConstant, .registerOrConstant, .abc, "IDIV"⟩
  | .band => ⟨false, true, .registerOrConstant, .registerOrConstant, .abc, "BAND"⟩
  | .bor => ⟨false, true, .registerOrConstant, .registerOrConstant, .abc, "BOR"⟩
  | .bxor => ⟨false, true, .registerOrConstant, .registerOrConstant, .abc, "BXOR"⟩
  | .shl => ⟨false, true, .registerOrConstant, .registerOrConstant, .abc, "SHL"⟩
  | .shr => ⟨false, true, .registerOrConstant, .registerOrConstant, .abc, "SHR"⟩
  | .unm => ⟨false, true, .register, .unused, .abc, "UNM"⟩
  | .bnot => ⟨false, true, .register, .unused, .abc, "BNOT"⟩
  | .not => ⟨false, true, .register, .unused, .abc, "NOT"⟩
  | .len => ⟨false, true, .register, .unused, .abc, "LEN"⟩
  | .concat => ⟨false, true, .register, .register, .abc, "CONCAT"⟩
  | .jmp => ⟨false, false, .register, .unused, .asbx, "JMP"⟩
  | .eq => ⟨true, false, .registerOrConstant, .registerOrConstant, .abc, "EQ"⟩
  | .lt => ⟨true, false, .registerOrConstant, .registerOrConstant, .abc, "LT"⟩
  | .le => ⟨true, false, .registerOrConstant, .registerOrConstant, .abc, "LE"⟩
  | .test => ⟨true, false, .unused, .plain, .abc, "TEST"⟩
  | .testSet => ⟨true, true, .register, .plain, .abc, "TESTSET"⟩
  | .call => ⟨false, true, .plain, .plain, .abc, "CALL"⟩
  | .tailCall => ⟨false, true, .plain, .plain, .abc, "TAILCALL"⟩
  | .ret => ⟨false, false, .plain, .unused, .abc, "RETURN"⟩
  | .forLoop => ⟨false, true, .register, .unused, .asbx, "FORLOOP"⟩
  | .forPrep => ⟨false, true, .register, .unused, .asbx, "FORPREP"⟩
  | .tforCall => ⟨false, false, .unused, .plain, .abc, "TFORCALL"⟩
  | .tforLoop => ⟨false, true, .register, .unused, .asbx, "TFORLOOP"⟩
  | .setList => ⟨false, false, .plain, .plain, .abc, "SETLIST"⟩
  | .closure => ⟨false, true, .plain, .unused, .abx, "CLOSURE"⟩
  | .varArg => ⟨false, true, .plain, .unused, .abc, "VARARG"⟩
  | .extraArg => ⟨false, false, .plain, .plain, .ax, "EXTRAARG"⟩

theorem all_getElem? (op : Opcode) : all[op.number]? = some op := by cases op <;> rfl

end Opcode

end LuaKernel
