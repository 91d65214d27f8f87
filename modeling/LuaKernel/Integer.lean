import LuaKernel.Bytes.Basic

/-!
# Integers

The machine's integers are 64-bit words read as signed numbers, and their arithmetic wraps. Division
rounds to the floor, the remainder takes the divisor's sign, and shifts act on the unsigned word with
no bound on the count.
-/

namespace LuaKernel.Integer

/-- The machine integer that a number is, if it is in range. -/
def ofInt? (i : Int) : Option Int64 :=
  if Int64.minValue.toInt ≤ i ∧ i ≤ Int64.maxValue.toInt then some (Int64.ofInt i) else none

theorem ofInt?_eq_some_iff {i : Int} {n : Int64} : ofInt? i = some n ↔ n.toInt = i := by
  have hlow := n.le_toInt
  have hhigh := n.toInt_lt
  rw [ofInt?, Int64.toInt_minValue, Int64.toInt_maxValue]
  constructor
  · intro h
    split at h
    · cases h
      exact Int64.toInt_ofInt_of_le (by omega) (by omega)
    · cases h
  · rintro rfl
    rw [if_pos (by omega), Int64.ofInt_toInt]

/-- The quotient rounded to the floor; `none` for a zero divisor. The one quotient that does not fit,
the least integer by `-1`, wraps to the least integer. -/
def floorDiv? (a b : Int64) : Option Int64 :=
  if b = 0 then none
  else
    let q := a / b
    let r := a % b
    -- The machine's quotient goes toward zero: an inexact one of a negative ratio is one too high.
    if r ≠ 0 ∧ (r ^^^ b) < 0 then some (q - 1) else some q

/-- What the floor quotient leaves: `a - (a // b) * b`; `none` for a zero divisor. -/
def modulo? (a b : Int64) : Option Int64 :=
  (floorDiv? a b).map fun q => a - q * b

/-- The unsigned word moved left by `n` places, or right by `-n` for a negative count. A count of 64 or
more either way leaves nothing. -/
def shiftLeft (a n : Int64) : Int64 :=
  if n ≤ -64 ∨ 64 ≤ n then 0
  else if n < 0 then (a.toUInt64 >>> (-n).toUInt64).toInt64
  else (a.toUInt64 <<< n.toUInt64).toInt64

/-- The unsigned word moved right by `n` places. Counts beyond 63 are settled before the negation, which
has no answer at the least integer. -/
def shiftRight (a n : Int64) : Int64 :=
  if n ≤ -64 ∨ 64 ≤ n then 0 else shiftLeft a (-n)

/-! ## Decimal text -/

/-- The decimal digits of a natural number, with no leading zero but for zero itself. -/
def natText (n : Nat) : Bytes := (Nat.toDigits 10 n).map Char.toUInt8

/-- The decimal text of an integer: a minus sign for a negative one, then its digits. -/
def intText (i : Int) : Bytes :=
  if i < 0 then Bytes.ascii "-" ++ natText i.natAbs else natText i.natAbs

/-- The decimal text of a machine integer. -/
def text (i : Int64) : Bytes := intText i.toInt

end LuaKernel.Integer
