import LuaKernel.Chunk.Reader

/-!
# Loading chunks

`Chunk.decode` reads a prototype tree back. It accepts more than `Chunk.encode` writes: either form of a
string's size, either string tag, any nonzero byte for true, and bytes after the chunk.
-/

namespace LuaKernel.Chunk

section
variable {m : Type → Type} [Monad m] [Input m]

/-- Takes the parts of the header one by one, each of which has to be as given. -/
def readHeader [MonadExcept DecodeError m] : List (HeaderField × Bytes) → m Unit
  | [] => return
  | (field, expected) :: fields => do
    let found ← Input.take expected.length
    if found = expected then readHeader fields else throw (.headerMismatch field)

/-- A constant, by its tag. -/
def readConstant [MonadExcept DecodeError m] : m Value := do
  let tag ← Input.byte
  if tag = tagNil then return .nil
  else if tag = tagBoolean then return .boolean (← Input.bool)
  else if tag = tagInteger then return .integer (← Input.word64).toInt64
  else if tag = tagFloat then return .float ⟨← Input.word64⟩
  else if tag = tagShortString ∨ tag = tagLongString then return .string (← Input.string)
  else throw (.unknownTag tag)

def readUpvalue : m Upvalue := do
  let inStack ← Input.bool
  let index ← Input.byte
  return { inStack, index }

def readLocal : m LocalVariable := do
  let name ← Input.string
  let startPc ← Input.word32
  let endPc ← Input.word32
  return { name, startPc, endPc }

/-- What stands before the functions inside a function. An absent source is that of the enclosing
function. -/
def readFront [MonadExcept DecodeError m] (enclosing : Option Bytes) : m FunctionBody := do
  let source := (← Input.string?).or enclosing
  let lineDefined ← Input.word32
  let lastLineDefined ← Input.word32
  let paramCount ← Input.byte
  let isVararg ← Input.bool
  let maxStackSize ← Input.byte
  let code ← Input.table 4 (return ⟨← Input.word32⟩)
  let constants ← Input.table 1 readConstant
  let upvalues ← Input.table 2 readUpvalue
  return { source, lineDefined, lastLineDefined, paramCount, isVararg, maxStackSize, code, constants,
           upvalues }

/-- The tables for the debugger, which stand after the functions inside a function. -/
def readBack (f : FunctionBody) : m FunctionBody := do
  let lines ← Input.table 4 Input.word32
  let locals ← Input.table 9 readLocal
  let upvalueNames ← Input.table 1 Input.string
  return { f with lines, locals, upvalueNames }

/-- A function inside one with the source `enclosing`, and at most `levels` levels of functions with
itself. -/
def readFunction [MonadExcept DecodeError m] : (levels : Nat) → (enclosing : Option Bytes) → m Prototype
  | 0, _ => throw (.nestedTooDeep nestingLimit)
  | levels + 1, enclosing => do
    let front ← readFront enclosing
    let children ← Input.table 1 (readFunction levels front.source)
    let body ← readBack front
    return .mk body children

/-- Everything after a header of the right length. The number of upvalues of the main function is passed
over: the function's own table says it. -/
def readChunk [MonadExcept DecodeError m] : m Prototype := do
  readHeader headerFields
  let _ ← Input.byte
  readFunction (nestingLimit + 1) none

end

/-- The prototype tree of a chunk. -/
def decode (input : Bytes) : Except DecodeError Prototype :=
  if input.length < headerSize then .error (.truncated 0 headerSize input.length)
  else ((readChunk : Reader Prototype).run { offset := 0, rest := input }).map Prod.fst

end LuaKernel.Chunk
