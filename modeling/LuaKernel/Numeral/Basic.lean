import LuaKernel.Bytes.Basic

/-!
# Pieces of a numeral

Signs, digits and the hexadecimal mark, shared by the integer and the float reading of a byte string.
-/

namespace LuaKernel.Numeral

/-! ## Digits -/

/-- A decimal digit. -/
def isDigit (b : UInt8) : Bool := '0'.toUInt8 ≤ b && b ≤ '9'.toUInt8

/-- The value of a hexadecimal digit in either case. -/
def hexValue? (b : UInt8) : Option Nat :=
  if isDigit b then some (b.toNat - '0'.toNat)
  else if 'a'.toUInt8 ≤ b && b ≤ 'f'.toUInt8 then some (b.toNat - 'a'.toNat + 10)
  else if 'A'.toUInt8 ≤ b && b ≤ 'F'.toUInt8 then some (b.toNat - 'A'.toNat + 10)
  else none

/-- The value of a decimal digit. -/
def decimalValue? (b : UInt8) : Option Nat :=
  if isDigit b then some (b.toNat - '0'.toNat) else none

/-- The digits' values, most significant first; `none` if some byte is no digit. -/
def digitValues? (value? : UInt8 → Option Nat) (s : Bytes) : Option (List Nat) := s.mapM value?

/-- The number that digits stand for in a base. -/
def ofDigits (base : Nat) (ds : List Nat) : Nat := ds.foldl (fun n d => n * base + d) 0

/-- One or more decimal digits, as a number. -/
def decimal? (s : Bytes) : Option Nat :=
  if s.isEmpty then none else (digitValues? decimalValue? s).map (ofDigits 10)

/-! ## Sign and mark -/

/-- Splits off one sign: whether it was a minus, and the rest. -/
def splitSign (s : Bytes) : Bool × Bytes :=
  match s with
  | [] => (false, [])
  | b :: rest =>
    if b = '-'.toUInt8 then (true, rest)
    else if b = '+'.toUInt8 then (false, rest)
    else (false, s)

/-- A number under a sign. -/
def signed (negative : Bool) (n : Nat) : Int := if negative then -n else n

/-- What follows the mark `0x` or `0X`; `none` without the mark. -/
def hexBody? (s : Bytes) : Option Bytes :=
  match s with
  | b :: c :: rest =>
    if b = '0'.toUInt8 ∧ (c = 'x'.toUInt8 ∨ c = 'X'.toUInt8) then some rest else none
  | _ => none

/-- One or more decimal digits with an optional sign. -/
def signedDecimal? (s : Bytes) : Option Int :=
  let (negative, digits) := splitSign s
  (decimal? digits).map (signed negative)

end LuaKernel.Numeral
