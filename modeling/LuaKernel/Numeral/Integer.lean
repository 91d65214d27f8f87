import LuaKernel.Integer
import LuaKernel.Numeral.Basic

/-!
# Integer numerals

Blanks at the ends, an optional sign, then decimal digits or `0x` and hexadecimal digits. The digits are
gathered one by one in a machine integer. A decimal numeral has to fit, and a step that does not fit ends
the reading; a hexadecimal one of any length wraps, which takes it modulo `2 ^ 64`.
-/

namespace LuaKernel.Numeral

/-! ## Hexadecimal -/

/-- The number with one more hexadecimal digit at its end, wrapped to 64 bits. -/
def wrapDigit (n : Int64) (d : Nat) : Int64 := n * 16 + Int64.ofNat d

/-- Hexadecimal digits under a sign, wrapped to 64 bits. -/
def hexInteger? (negative : Bool) (digits : Bytes) : Option Int64 :=
  if digits.isEmpty then none
  else do
    let n ← digits.foldlM (fun n b => (hexValue? b).map (wrapDigit n)) 0
    return if negative then -n else n

/-! ## Decimal -/

/-- A number below zero with one more decimal digit at its end, as long as it fits. -/
def lowerDigit? (n : Int64) (d : Nat) : Option Int64 := do
  let tens ← Integer.ofInt? (n.toInt * 10)
  Integer.ofInt? (tens.toInt - d)

/-- Decimal digits under a sign, which have to fit. They are gathered below zero, which reaches one
further than above it, and a number without a minus sign is turned around at the end. -/
def decimalInteger? (negative : Bool) (digits : Bytes) : Option Int64 :=
  if digits.isEmpty then none
  else do
    let n ← digits.foldlM (fun n b => (decimalValue? b).bind (lowerDigit? n)) 0
    if negative then some n else Integer.ofInt? (-n.toInt)

/-! ## Either -/

/-- The integer that a byte string spells. -/
def integer? (s : Bytes) : Option Int64 :=
  let (negative, body) := splitSign s.trim
  match hexBody? body with
  | some digits => hexInteger? negative digits
  | none => decimalInteger? negative body

end LuaKernel.Numeral
