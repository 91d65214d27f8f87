import LuaKernel.Binary64.Nearest
import LuaKernel.Integer

/-!
# The text of a double

A finite double is written with 14 significant digits: in fixed notation while its decimal exponent is
between -4 and 13, in scientific notation outside, trailing zeros of the fraction left out. A text that
would read as an integer gets `.0`. The exponent that chooses the notation is the one *after* rounding to
14 digits, and fixed notation then rounds the exact value to the places that exponent leaves.
-/

namespace LuaKernel.Binary64

/-- The number of significant digits. -/
def precision : Nat := 14

/-! ## Decimal rounding of an exact ratio -/

/-- `num / den * 10 ^ places` rounded to a whole number, a half to even. -/
def roundPlaces (num den : Nat) (places : Int) : Nat :=
  roundDiv (num * Nat.pow 10 places.toNat) (den * Nat.pow 10 (-places).toNat)

/-- The exponent `e` with `10 ^ e ≤ num / den < 10 ^ (e + 1)`, for a positive ratio. -/
def decimalExponent (num den : Nat) : Int :=
  if den ≤ num then (Nat.toDigits 10 (num / den)).length - 1
  else -(Nat.toDigits 10 ((den - 1) / num)).length

/-- A positive decimal number: `digits * 10 ^ (exponent - (precision - 1))`, with exactly `precision`
digits. -/
structure Significant where
  digits : Nat
  exponent : Int
deriving DecidableEq, Repr

/-- A positive ratio rounded to `precision` significant digits. Rounding up to the next power of ten
moves the exponent. -/
def significant (num den : Nat) : Significant :=
  let e := decimalExponent num den
  let d := roundPlaces num den (precision - 1 - e)
  if d < Nat.pow 10 precision then ⟨d, e⟩ else ⟨Nat.pow 10 (precision - 1), e + 1⟩

/-! ## Notation -/

def digitZero : UInt8 := 0x30

/-- `n / 10 ^ places` as whole digits, and a point and fraction where the fraction is not zero. Trailing
zeros of the fraction are left out. -/
def pointText (n places : Nat) : Bytes :=
  let whole := Integer.natText (n / Nat.pow 10 places)
  let fraction := (Integer.natText (n % Nat.pow 10 places)).leftpad places digitZero
  match (fraction.reverse.dropWhile (· == digitZero)).reverse with
  | [] => whole
  | ds => whole ++ Bytes.ascii "." ++ ds

/-- The exponent of scientific notation: always signed, at least two digits. -/
def exponentText (e : Int) : Bytes :=
  Bytes.ascii (if e < 0 then "e-" else "e+") ++ (Integer.natText e.natAbs).leftpad 2 digitZero

/-- A positive ratio in the shorter-to-read notation for its size. -/
def generalText (num den : Nat) : Bytes :=
  let s := significant num den
  if s.exponent < -4 ∨ precision ≤ s.exponent then
    pointText s.digits (precision - 1) ++ exponentText s.exponent
  else
    let places := (precision - 1 - s.exponent).toNat
    pointText (roundPlaces num den places) places

/-- A minus sign or a decimal digit. -/
def isIntegerByte (b : UInt8) : Bool := b == 0x2d || (0x30 ≤ b && b ≤ 0x39)

/-- Finite texts that would read as an integer are marked as a float. -/
def withPoint (s : Bytes) : Bytes := if s.all isIntegerByte then s ++ Bytes.ascii ".0" else s

/-- The text of a double. A NaN shows its sign bit. -/
def text (x : Binary64) : Bytes :=
  let sign := if x.isNegative then Bytes.ascii "-" else []
  if x.isNaN then sign ++ Bytes.ascii "nan"
  else if x.isInfinite then sign ++ Bytes.ascii "inf"
  else if x.isZero then withPoint (sign ++ Bytes.ascii "0")
  else withPoint (sign ++ generalText x.absUnits unitsPerOne)

end LuaKernel.Binary64
