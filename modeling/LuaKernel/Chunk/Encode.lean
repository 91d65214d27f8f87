import LuaKernel.Chunk.Format

/-!
# Writing chunks

`Chunk.encode` writes a prototype tree. A function inside another leaves its source out where it is that
of the enclosing one. Stripping leaves out all sources and all tables for the debugger.
-/

namespace LuaKernel.Chunk

/-- The number of entries of a part, as a word of four bytes. -/
def encodeCount (part : Part) (n : Nat) : Except EncodeError Bytes :=
  if n < UInt32.size then .ok (Bytes.leBytes 4 n) else .error (.tooLarge part n)

def encodeBool (b : Bool) : UInt8 := if b then 1 else 0

/-- A string: its length plus one, in a byte if that is below the mark and in eight bytes after the mark
otherwise, and its bytes. The error is for lengths beyond eight bytes, which no string in a memory has. -/
def encodeString (s : Bytes) : Except EncodeError Bytes :=
  let size := s.length + 1
  if size < longSizeMark.toNat then .ok (UInt8.ofNat size :: s)
  else if size < UInt64.size then .ok (longSizeMark :: Bytes.leBytes 8 size ++ s)
  else .error (.tooLarge .string s.length)

/-- A string that may be absent, which a zero size says. -/
def encodeString? : Option Bytes → Except EncodeError Bytes
  | none => .ok [0]
  | some s => encodeString s

/-- A constant: its tag and its content. -/
def encodeConstant : Value → Except EncodeError Bytes
  | .nil => .ok [tagNil]
  | .boolean b => .ok [tagBoolean, encodeBool b]
  | .integer n => .ok (tagInteger :: word64Bytes n.toUInt64)
  | .float x => .ok (tagFloat :: word64Bytes x.bits)
  | .string s => do
    let t ← encodeString s
    return (if Bytes.isShort s then tagShortString else tagLongString) :: t

def encodeUpvalue (u : Upvalue) : Bytes := [encodeBool u.inStack, u.index]

def encodeLocal (v : LocalVariable) : Except EncodeError Bytes := do
  let name ← encodeString v.name
  return name ++ word32Bytes v.startPc ++ word32Bytes v.endPc

/-- A counted table of entries. -/
def encodeTable {α : Type} (part : Part) (entry : α → Except EncodeError Bytes) (xs : List α) :
    Except EncodeError Bytes := do
  let count ← encodeCount part xs.length
  let entries ← xs.mapM entry
  return count ++ entries.flatten

/-- What stands before the functions inside a function. -/
def encodeFront (strip : Bool) (enclosing : Option Bytes) (f : FunctionBody) :
    Except EncodeError Bytes := do
  let source ← encodeString? (if strip || f.source == enclosing then none else f.source)
  let fixed := word32Bytes f.lineDefined ++ word32Bytes f.lastLineDefined ++
    [f.paramCount, encodeBool f.isVararg, f.maxStackSize]
  let code ← encodeTable .code (fun i => .ok (word32Bytes i.word)) f.code
  let constants ← encodeTable .constants encodeConstant f.constants
  let upvalues ← encodeTable .upvalues (fun u => .ok (encodeUpvalue u)) f.upvalues
  return source ++ fixed ++ code ++ constants ++ upvalues

/-- The tables for the debugger, which stand after the functions inside a function. -/
def encodeBack (strip : Bool) (f : FunctionBody) : Except EncodeError Bytes :=
  if strip then .ok (word32Bytes 0 ++ word32Bytes 0 ++ word32Bytes 0)
  else do
    let lines ← encodeTable .lines (fun n => .ok (word32Bytes n)) f.lines
    let locals ← encodeTable .locals encodeLocal f.locals
    let names ← encodeTable .upvalueNames encodeString f.upvalueNames
    return lines ++ locals ++ names

mutual

/-- A function inside one with the source `enclosing`. -/
def encodeFunction (strip : Bool) (enclosing : Option Bytes) :
    Prototype → Except EncodeError Bytes
  | .mk f children => do
    let front ← encodeFront strip enclosing f
    let count ← encodeCount .functions children.length
    let inside ← encodeFunctions strip f.source children
    let back ← encodeBack strip f
    return front ++ count ++ inside ++ back

def encodeFunctions (strip : Bool) (enclosing : Option Bytes) :
    List Prototype → Except EncodeError Bytes
  | [] => .ok []
  | p :: ps => do
    let first ← encodeFunction strip enclosing p
    let rest ← encodeFunctions strip enclosing ps
    return first ++ rest

end

/-- The number of upvalues of the main function, in one byte. -/
def encodeMainUpvalues (n : Nat) : Except EncodeError Bytes :=
  if n < UInt8.size then .ok [UInt8.ofNat n] else .error (.tooLarge .mainUpvalues n)

/-- The chunk of a prototype tree. -/
def encode (p : Prototype) (strip : Bool) : Except EncodeError Bytes := do
  let upvalues ← encodeMainUpvalues p.body.upvalues.length
  let main ← encodeFunction strip none p
  return header ++ upvalues ++ main

end LuaKernel.Chunk
