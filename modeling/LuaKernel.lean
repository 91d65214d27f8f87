import LuaKernel.Chunk.Decode
import LuaKernel.Chunk.Encode
import LuaKernel.Instruction.Listing
import LuaKernel.Machine
import LuaKernel.Proofs.Binary64.DecimalText
import LuaKernel.Proofs.Chunk.NormalForm
import LuaKernel.Proofs.Chunk.Positional
import LuaKernel.Proofs.Chunk.PrefixCode
import LuaKernel.Proofs.Chunk.Stripping
import LuaKernel.Proofs.Machine.Failure
import LuaKernel.Proofs.Machine.ListEdits
import LuaKernel.Proofs.Machine.StringInPlace
import LuaKernel.Proofs.Operator.Dispatch
import LuaKernel.Proofs.Operator.FloorDivision
import LuaKernel.Proofs.Operator.Order
import LuaKernel.Proofs.Stack.Rotation
import LuaKernel.Proofs.Value.Readings
import LuaKernel.Proofs.Machine.Concatenation
import LuaKernel.Proofs.Instruction.Layouts
import LuaKernel.Proofs.Chunk.Reservations
import LuaKernel.Proofs.Instruction.Listing
import LuaKernel.Proofs.Chunk.HeaderFaults
import LuaKernel.Proofs.Machine.Reservation
import LuaKernel.Proofs.Machine.Replacement
import LuaKernel.Proofs.Binary64.Overflow
import LuaKernel.Proofs.Numeral.HexFloats
import LuaKernel.Proofs.Operator.Transitivity
import LuaKernel.Proofs.Chunk.Shortest
import LuaKernel.Proofs.Operator.Shifts
import LuaKernel.Proofs.Prototype.Locals
import LuaKernel.Proofs.Chunk.Relations
