import LuaKernel.Instruction.Basic
import LuaKernel.Integer

/-!
# Listing of instructions

An instruction is listed as its mnemonic and the operands it uses, with blanks between. Constants are
shown as negative numbers, counted from -1 down, so that they do not look like registers. A word with no
assigned opcode is listed as the word.
-/

namespace LuaKernel.Instruction

/-- A constant's place as a negative number. -/
def constantNumber (index : Nat) : Int := -1 - index

/-- An operand B or C: a register or plain number as it is, a constant as a negative number. -/
def registerOrConstantNumber (x : Nat) : Int :=
  if isConstant x then constantNumber (constantIndex x) else x

/-- An operand B or C, if it is used. -/
def usedOperand (use : OperandUse) (x : Nat) : List Int :=
  if use = .unused then [] else [registerOrConstantNumber x]

/-- A wide operand: a constant, a plain number, or nothing. -/
def usedWide (use : OperandUse) (x : Nat) : List Int :=
  match use with
  | .registerOrConstant => [constantNumber x]
  | .plain => [(x : Int)]
  | _ => []

/-- The numbers listed after the mnemonic. -/
def listedOperands (i : Instruction) (info : OpcodeInfo) : List Int :=
  match info.layout with
  | .abc => [(i.a : Int)] ++ usedOperand info.b i.b ++ usedOperand info.c i.c
  | .abx => [(i.a : Int)] ++ usedWide info.b i.bx
  | .asbx => [(i.a : Int), i.sbx]
  | .ax => [constantNumber i.ax]

/-- A word as eight hexadecimal digits. -/
def wordText (word : UInt32) : Bytes :=
  ((Nat.toDigits 16 word.toNat).map Char.toUInt8).leftpad 8 '0'.toUInt8

/-- The parts of a listing. -/
def listingParts (i : Instruction) : List Bytes :=
  match i.opcode? with
  | none => [Bytes.ascii "UNKNOWN(0x" ++ wordText i.word ++ Bytes.ascii ")"]
  | some op => Bytes.ascii op.info.mnemonic :: (i.listedOperands op.info).map Integer.intText

/-- The listing of an instruction. -/
def listing (i : Instruction) : Bytes := (Bytes.ascii " ").intercalate i.listingParts

end LuaKernel.Instruction
