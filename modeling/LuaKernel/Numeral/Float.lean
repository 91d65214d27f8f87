import LuaKernel.Binary64.Arithmetic
import LuaKernel.Numeral.Integer

/-!
# Float numerals

Blanks at the ends and an optional sign, then one of

* decimal digits with at most one point, and an optional exponent after `e` or `E`; the value is rounded
  once from the exact decimal;
* `0x` and hexadecimal digits, read as an integer that wraps to 64 bits and then widened;
* `0x` and hexadecimal digits with at most one point, and an optional binary exponent after `p` or `P`.
  The digits are gathered in binary64 one by one, and the power of two is multiplied on at the end. A long
  numeral can therefore overflow to infinity before a negative exponent applies to it.

A text of a double may also be a word for an infinity or a NaN. A numeral may not: a letter that is in no
decimal numeral is refused before the text is read.
-/

namespace LuaKernel.Numeral

/-- The point between whole and fractional digits. -/
def isPoint (b : UInt8) : Bool := b == '.'.toUInt8

/-- The bytes before the first one that `p` holds of, and the bytes after it if there is one. -/
def splitAt? (p : UInt8 → Bool) (s : Bytes) : Bytes × Option Bytes :=
  let before := s.takeWhile fun b => !p b
  match s.dropWhile fun b => !p b with
  | [] => (before, none)
  | _ :: after => (before, some after)

/-- Digits around an optional point: the whole and the fractional ones. -/
def splitPoint (s : Bytes) : Bytes × Bytes :=
  let (whole, fraction) := splitAt? isPoint s
  (whole, fraction.getD [])

/-! ## Decimal -/

def isDecimalExponent (b : UInt8) : Bool := b == 'e'.toUInt8 || b == 'E'.toUInt8

/-- The double nearest to a decimal numeral. -/
def decimalFloat? (negative : Bool) (s : Bytes) : Option Binary64 := do
  let (mantissa, exponent) := splitAt? isDecimalExponent s
  let (whole, fraction) := splitPoint mantissa
  let digits ← decimal? (whole ++ fraction)
  let e ← match exponent with
    | none => some 0
    | some t => signedDecimal? t
  some (Binary64.ofScientific negative digits (e - fraction.length))

/-! ## Words -/

def isUpper (b : UInt8) : Bool := 'A'.toUInt8 ≤ b && b ≤ 'Z'.toUInt8

def isLower (b : UInt8) : Bool := 'a'.toUInt8 ≤ b && b ≤ 'z'.toUInt8

/-- An upper-case letter in lower case, any other byte as it is. -/
def toLower (b : UInt8) : UInt8 := if isUpper b then b + 0x20 else b

/-- The double that a word stands for, in any case. -/
def wordFloat? (negative : Bool) (s : Bytes) : Option Binary64 :=
  let word := s.map toLower
  if word = Bytes.ascii "inf" ∨ word = Bytes.ascii "infinity" then some (.infinity negative)
  else if word = Bytes.ascii "nan" then some (if negative then Binary64.nan.neg else .nan)
  else none

/-- The double of a text without its sign: a word or a decimal numeral. -/
def textFloat? (negative : Bool) (s : Bytes) : Option Binary64 :=
  (wordFloat? negative s).or (decimalFloat? negative s)

/-- A letter that no decimal numeral has. -/
def isForeignLetter (b : UInt8) : Bool := (isUpper b || isLower b) && !isDecimalExponent b

/-! ## Hexadecimal -/

def isBinaryExponent (b : UInt8) : Bool := b == 'p'.toUInt8 || b == 'P'.toUInt8

/-- The 32-bit integer that a number is, if it is in range. Binary exponents are kept in 32 bits. -/
def fitExponent? (e : Int) : Option Int32 :=
  if Int32.minValue.toInt ≤ e ∧ e ≤ Int32.maxValue.toInt then some (Int32.ofInt e) else none

/-- The scale of fractional digits: four binary places down for each. It wraps beyond `2 ^ 29` digits. -/
def fractionScale (fractionDigits : Nat) : Int32 := Int32.ofInt (-4 * fractionDigits)

/-- Hexadecimal digits gathered in binary64, each step rounded. -/
def gather (ds : List Nat) : Binary64 :=
  ds.foldl (fun m (d : Nat) => (m.mul (.ofInt 16)).add (.ofInt d)) (.zero false)

/-- A mantissa scaled by a power of two. A zero mantissa stays zero under any scale. -/
def scale (mantissa : Binary64) (e : Int) : Binary64 :=
  if mantissa.isZero then .zero false else mantissa.mul (.twoPow e)

/-- The binary exponent of a hexadecimal numeral. The written exponent and its sum with the scale of the
fractional digits both have to fit. -/
def binaryExponent? (fractionDigits : Nat) : Option Bytes → Option Int32
  | none => some (fractionScale fractionDigits)
  | some t => do
    let written ← signedDecimal? t
    let e ← fitExponent? written
    fitExponent? ((fractionScale fractionDigits).toInt + e.toInt)

/-- A hexadecimal numeral with a point or an exponent. -/
def hexFloat? (negative : Bool) (s : Bytes) : Option Binary64 := do
  let (mantissa, exponent) := splitAt? isBinaryExponent s
  let (whole, fraction) := splitPoint mantissa
  let digits ← digitValues? hexValue? (whole ++ fraction)
  if digits.isEmpty then none
  else
    let e ← binaryExponent? fraction.length exponent
    let f := scale (gather digits) e.toInt
    some (if negative then f.neg else f)

/-! ## Either -/

/-- The double that a byte string spells. -/
def float? (s : Bytes) : Option Binary64 :=
  let (negative, body) := splitSign s.trim
  match hexBody? body with
  | some digits =>
    match hexInteger? negative digits with
    | some i => some (Binary64.ofInt64 i)
    | none => hexFloat? negative digits
  | none => if body.any isForeignLetter then none else textFloat? negative body

end LuaKernel.Numeral
