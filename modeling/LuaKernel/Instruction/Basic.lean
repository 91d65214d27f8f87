import LuaKernel.Instruction.Opcode

/-!
# Instruction words

An instruction is a 32-bit word: the opcode in the low 6 bits, and above it the operands of one of four
layouts. A field is a range of bits, and a word is the bitwise or of fields that do not overlap.
-/

namespace LuaKernel

/-- A range of bits of an instruction word. -/
structure Field where
  offset : Nat
  width : Nat
deriving DecidableEq, Repr

namespace Field

def opcode : Field := ⟨0, 6⟩
def a : Field := ⟨6, 8⟩
def b : Field := ⟨14, 9⟩
def c : Field := ⟨23, 9⟩
def bx : Field := ⟨14, 18⟩
def ax : Field := ⟨6, 26⟩

/-- The greatest number that fits. -/
def max (f : Field) : Nat := (1 <<< f.width) - 1

/-- The field of a word. -/
def get (f : Field) (word : UInt32) : Nat := (word.toNat >>> f.offset) % (1 <<< f.width)

/-- A number moved to the field's place. -/
def place (f : Field) (n : Nat) : Nat := n <<< f.offset

end Field

/-- What is subtracted from Bx to give it a sign: signed operands run from `-signBias` to
`signBias + 1`. -/
def signBias : Nat := Field.bx.max / 2

/-! ## Operands that may be constants -/

/-- The bit of B or C that marks a constant. -/
def constantMark : Nat := 1 <<< (Field.b.width - 1)

/-- The mark bit is set. -/
def isConstant (x : Nat) : Bool := x / constantMark % 2 = 1

/-- The operand without its mark: the place in the table of constants. -/
def constantIndex (x : Nat) : Nat := if isConstant x then x - constantMark else x

/-! ## Words -/

/-- An instruction word. -/
structure Instruction where
  word : UInt32
deriving DecidableEq, Inhabited, Repr

/-- The operands of an instruction, by layout. -/
inductive Operands where
  | abc (a b c : Nat)
  | abx (a bx : Nat)
  | asbx (a : Nat) (sbx : Int)
  | ax (ax : Nat)
deriving DecidableEq, Repr

namespace Instruction

def ofNat (n : Nat) : Instruction := ⟨UInt32.ofNat n⟩

/-- The instruction with three operands. They have to fit their fields. -/
def ofABC (op : Opcode) (a b c : Nat) : Instruction :=
  ofNat (Field.opcode.place op.number ||| Field.a.place a ||| Field.b.place b ||| Field.c.place c)

/-- The instruction with a wide operand. -/
def ofABx (op : Opcode) (a bx : Nat) : Instruction :=
  ofNat (Field.opcode.place op.number ||| Field.a.place a ||| Field.bx.place bx)

/-- The instruction with a signed wide operand. -/
def ofAsBx (op : Opcode) (a : Nat) (sbx : Int) : Instruction :=
  ofABx op a (sbx + signBias).toNat

/-- The instruction with one operand. -/
def ofAx (op : Opcode) (ax : Nat) : Instruction :=
  ofNat (Field.opcode.place op.number ||| Field.ax.place ax)

/-- The number in the opcode's place, assigned or not. -/
def opcodeNumber (i : Instruction) : Nat := Field.opcode.get i.word

/-- The opcode, if its number is assigned. -/
def opcode? (i : Instruction) : Option Opcode := Opcode.ofNumber? i.opcodeNumber

def a (i : Instruction) : Nat := Field.a.get i.word
def b (i : Instruction) : Nat := Field.b.get i.word
def c (i : Instruction) : Nat := Field.c.get i.word
def bx (i : Instruction) : Nat := Field.bx.get i.word
def sbx (i : Instruction) : Int := i.bx - signBias
def ax (i : Instruction) : Nat := Field.ax.get i.word

/-- The operands that a layout finds in the word. -/
def operandsIn (i : Instruction) : Layout → Operands
  | .abc => .abc i.a i.b i.c
  | .abx => .abx i.a i.bx
  | .asbx => .asbx i.a i.sbx
  | .ax => .ax i.ax

/-- The operands in the opcode's own layout. -/
def operands? (i : Instruction) : Option Operands :=
  i.opcode?.map fun op => i.operandsIn op.info.layout

/-- The instruction with given operands. -/
def ofOperands (op : Opcode) : Operands → Instruction
  | .abc a b c => ofABC op a b c
  | .abx a bx => ofABx op a bx
  | .asbx a sbx => ofAsBx op a sbx
  | .ax ax => ofAx op ax

end Instruction

end LuaKernel
