import LuaKernel.Prototype

/-!
# The chunk format

A precompiled chunk is a fixed header, a byte with the number of upvalues of the main function, and that
function. Words are little-endian. The header names the sizes a reader has to agree on and ends with a
sample integer and a sample float.
-/

namespace LuaKernel.Chunk

/-! ## Header -/

/-- The parts of the header. -/
inductive HeaderField where
  | signature | version | format | guardBytes
  | intSize | sizeSize | instructionSize | integerSize | numberSize
  | sampleInteger | sampleFloat
deriving DecidableEq, Repr

def signature : Bytes := 0x1b :: Bytes.ascii "Lua"
def version : UInt8 := 0x53
def format : UInt8 := 0
/-- Bytes that a transfer as text would change. -/
def guardBytes : Bytes := [0x19, 0x93, 0x0d, 0x0a, 0x1a, 0x0a]
def intSize : UInt8 := 4
def sizeSize : UInt8 := 8
def instructionSize : UInt8 := 4
def integerSize : UInt8 := 8
def numberSize : UInt8 := 8
/-- Shows the order of bytes. -/
def sampleInteger : Int64 := 0x5678
/-- Shows the format of floats: 370.5. -/
def sampleFloat : Binary64 := ⟨0x4077280000000000⟩

/-- A word of four bytes. -/
def word32Bytes (n : UInt32) : Bytes := Bytes.leBytes 4 n.toNat

/-- A word of eight bytes. -/
def word64Bytes (n : UInt64) : Bytes := Bytes.leBytes 8 n.toNat

/-- What each part of the header holds, in order. -/
def headerFields : List (HeaderField × Bytes) :=
  [(.signature, signature),
   (.version, [version]),
   (.format, [format]),
   (.guardBytes, guardBytes),
   (.intSize, [intSize]),
   (.sizeSize, [sizeSize]),
   (.instructionSize, [instructionSize]),
   (.integerSize, [integerSize]),
   (.numberSize, [numberSize]),
   (.sampleInteger, word64Bytes sampleInteger.toUInt64),
   (.sampleFloat, word64Bytes sampleFloat.bits)]

/-- The header. -/
def header : Bytes := headerFields.flatMap Prod.snd

/-- The length of the header. -/
def headerSize : Nat := 33

theorem length_header : header.length = headerSize := by decide

/-! ## Tags and limits -/

def tagNil : UInt8 := 0x00
def tagBoolean : UInt8 := 0x01
def tagFloat : UInt8 := 0x03
def tagInteger : UInt8 := 0x13
def tagShortString : UInt8 := 0x04
def tagLongString : UInt8 := 0x14

/-- The size byte that announces a size of eight bytes. -/
def longSizeMark : UInt8 := 0xff

/-- The deepest nesting of functions that loads. -/
def nestingLimit : Nat := 200

/-! ## Errors -/

/-- A part of a function whose number of entries is stored with it. A `string` is only too large where no memory
holds it. -/
inductive Part where
  | mainUpvalues | code | constants | upvalues | functions | lines | locals | upvalueNames | string
deriving DecidableEq, Repr

def Part.name : Part → String
  | .mainUpvalues => "main upvalues"
  | .code => "code"
  | .constants => "constants"
  | .upvalues => "upvalues"
  | .functions => "protos"
  | .lines => "line info"
  | .locals => "local vars"
  | .upvalueNames => "upvalue names"
  | .string => "string"

/-- Why a function cannot be written. -/
inductive EncodeError where
  /-- A part is longer than its count can say. -/
  | tooLarge (part : Part) (length : Nat)
deriving DecidableEq, Repr

/-- Why a chunk does not load. -/
inductive DecodeError where
  /-- The input ended: how many bytes were needed where, and how many were left. -/
  | truncated (offset needed remaining : Nat)
  /-- A part of the header is not as it has to be. -/
  | headerMismatch (field : HeaderField)
  /-- No constant has this tag. -/
  | unknownTag (tag : UInt8)
  /-- Functions nest too deep. -/
  | nestedTooDeep (limit : Nat)
deriving DecidableEq, Repr

/-- What is wrong with a chunk whose header differs in a part. -/
def HeaderField.message : HeaderField → String
  | .signature => "not a precompiled chunk"
  | .version => "version mismatch"
  | .format => "format mismatch"
  | .guardBytes => "corrupted"
  | .intSize => "int size mismatch"
  | .sizeSize => "size_t size mismatch"
  | .instructionSize => "instruction size mismatch"
  | .integerSize => "lua_Integer size mismatch"
  | .numberSize => "lua_Number size mismatch"
  | .sampleInteger => "endianness mismatch"
  | .sampleFloat => "float format mismatch"

def EncodeError.message : EncodeError → String
  | .tooLarge part length =>
    s!"cannot dump {part.name}: {length} entries exceed the format limit"

/-- A byte as two hexadecimal digits. -/
def byteText (b : UInt8) : String := String.ofList ((Nat.toDigits 16 b.toNat).leftpad 2 '0')

def DecodeError.message : DecodeError → String
  | .truncated offset needed remaining =>
    s!"truncated binary chunk: needed {needed} bytes at offset {offset}, {remaining} left"
  | .headerMismatch field => field.message
  | .unknownTag tag => s!"corrupted chunk: unknown constant tag 0x{byteText tag}"
  | .nestedTooDeep limit => s!"binary chunk nests functions deeper than {limit} levels"

end LuaKernel.Chunk
