import Mathlib
import LuaKernel.Operator.Arithmetic

/-!
# Shifts

`moved u k` is a word moved by any whole number of places: a product modulo `2 ^ 64` to the left, a quotient
rounded to the floor to the right. The shifts on words compute it for every count (`toNat_shiftLeft`,
`toNat_shiftRight`): a count of 64 or more leaves nothing of the word (`moved_of_le`, `moved_of_le_neg`), and
below that the six bits of its count that a machine shift looks at are all of it (`count_mod`).

* `moved_moved`, `moved_moved_neg`: moving twice in one direction adds the counts up.
* `shiftRight_eq`: to the right is to the left by the negated count, also where negation wraps.
* `shifts_exact`: all of it.
-/

namespace LuaKernel.Integer

/-! ## Unbounded counts -/

/-- A word moved to the left by `k` places, which is to the right for a negative `k`. -/
def moved (u : ℕ) (k : ℤ) : ℕ := if 0 ≤ k then u * 2 ^ k.toNat % 2 ^ 64 else u / 2 ^ (-k).toNat

section
variable {u : ℕ}

theorem moved_natCast (u k : ℕ) : moved u k = u * 2 ^ k % 2 ^ 64 := by
  rw [moved, if_pos (Int.natCast_nonneg k), Int.toNat_natCast]

/-- No place to the right is no place to the left, as the word fits. -/
theorem moved_neg_natCast (hu : u < 2 ^ 64) (k : ℕ) : moved u (-k) = u / 2 ^ k := by
  rcases Nat.eq_zero_or_pos k with rfl | hk
  · rw [Nat.cast_zero, neg_zero, pow_zero, Nat.div_one, ← Nat.cast_zero, moved_natCast, pow_zero, mul_one,
      Nat.mod_eq_of_lt hu]
  · rw [moved, if_neg (by omega), neg_neg, Int.toNat_natCast]

theorem moved_of_le {k : ℤ} (hk : 64 ≤ k) : moved u k = 0 := by
  obtain ⟨n, rfl⟩ := Int.eq_ofNat_of_zero_le (by omega : 0 ≤ k)
  have hdvd : 2 ^ 64 ∣ u * 2 ^ n := (Nat.pow_dvd_pow 2 (by omega)).mul_left u
  rw [moved_natCast]
  exact Nat.mod_eq_zero_of_dvd hdvd

theorem moved_of_le_neg {k : ℤ} (hu : u < 2 ^ 64) (hk : k ≤ -64) : moved u k = 0 := by
  obtain ⟨n, hn⟩ := Int.eq_ofNat_of_zero_le (by omega : 0 ≤ -k)
  obtain rfl : k = -n := by omega
  rw [moved_neg_natCast hu]
  exact Nat.div_eq_of_lt (hu.trans_le (Nat.pow_le_pow_right two_pos (by omega)))

/-- **Two moves to the left**: what the first drops the second would drop too. -/
theorem moved_moved (u n m : ℕ) : moved (moved u n) m = moved u (n + m) := by
  rw [← Nat.cast_add, moved_natCast, moved_natCast, moved_natCast, Nat.mod_mul_mod, mul_assoc, pow_add]

/-- **Two moves to the right.** -/
theorem moved_moved_neg (hu : u < 2 ^ 64) (n m : ℕ) : moved (moved u (-n)) (-m) = moved u (-(n + m)) := by
  have hle : u / 2 ^ n < 2 ^ 64 := (Nat.div_le_self ..).trans_lt hu
  rw [← Nat.cast_add, moved_neg_natCast hu, moved_neg_natCast hle, moved_neg_natCast hu,
    Nat.div_div_eq_div_mul, pow_add]

end

/-! ## Words -/

variable {n : Int64}

theorem toNat_toUInt64_lt (a : Int64) : a.toUInt64.toNat < 2 ^ 64 := a.toUInt64.toNat_lt

/-- The count that a machine shift looks at, for a count in range. -/
theorem count_mod (hlow : 0 ≤ n.toInt) (hhigh : n.toInt < 64) : n.toUInt64.toNat % 64 = n.toInt.toNat := by
  have hn : n.toUInt64.toNat = n.toInt.toNat := Int64.toNat_toUInt64_of_le (Int64.le_iff_toInt_le.2 hlow)
  rw [hn]
  exact Nat.mod_eq_of_lt (by omega)

/-- Negation is exact but at the least integer. -/
theorem toInt_neg_of_lt (h : -2 ^ 63 < n.toInt) : (-n).toInt = -n.toInt := by
  have hhigh := n.toInt_lt
  rw [Int64.toInt_neg]
  exact Int.bmod_eq_of_le (by omega) (by omega)

theorem beyond_iff : n ≤ -64 ∨ 64 ≤ n ↔ n.toInt ≤ -64 ∨ 64 ≤ n.toInt := by
  rw [Int64.le_iff_toInt_le, Int64.le_iff_toInt_le]
  rfl

/-- **To the left**, by any count. -/
theorem toNat_shiftLeft (a n : Int64) : (shiftLeft a n).toUInt64.toNat = moved a.toUInt64.toNat n.toInt := by
  have hu := toNat_toUInt64_lt a
  rw [shiftLeft]
  split
  · rename_i hbeyond
    rcases beyond_iff.1 hbeyond with h | h
    · rw [moved_of_le_neg hu h]
      rfl
    · rw [moved_of_le h]
      rfl
  rename_i hwithin
  rw [beyond_iff] at hwithin
  split
  · rename_i hneg
    have hneg : n.toInt < 0 := Int64.lt_iff_toInt_lt.1 hneg
    have hcount : (-n).toInt = -n.toInt := toInt_neg_of_lt (by omega)
    show (a.toUInt64 >>> (-n).toUInt64).toNat = _
    rw [UInt64.toNat_shiftRight, count_mod (by omega) (by omega), Nat.shiftRight_eq_div_pow, hcount, moved,
      if_neg (by omega)]
  · rename_i hnonneg
    have hnonneg : 0 ≤ n.toInt := Int.not_lt.1 fun h => hnonneg (Int64.lt_iff_toInt_lt.2 h)
    show (a.toUInt64 <<< n.toUInt64).toNat = _
    rw [UInt64.toNat_shiftLeft, count_mod hnonneg (by omega), Nat.shiftLeft_eq, moved, if_pos hnonneg]

/-- **To the right**, by any count. -/
theorem toNat_shiftRight (a n : Int64) :
    (shiftRight a n).toUInt64.toNat = moved a.toUInt64.toNat (-n.toInt) := by
  have hu := toNat_toUInt64_lt a
  rw [shiftRight]
  split
  · rename_i hbeyond
    rcases beyond_iff.1 hbeyond with h | h
    · rw [moved_of_le (by omega)]
      rfl
    · rw [moved_of_le_neg hu (by omega)]
      rfl
  · rename_i hwithin
    rw [beyond_iff] at hwithin
    rw [toNat_shiftLeft, toInt_neg_of_lt (by omega)]

theorem eq_of_toNat {a b : Int64} (h : a.toUInt64.toNat = b.toUInt64.toNat) : a = b :=
  congrArg UInt64.toInt64 (UInt64.toNat_inj.1 h)

/-- **To the right is to the left by the negated count.** The least integer is its own negation, and leaves
nothing either way. -/
theorem shiftRight_eq (a n : Int64) : shiftRight a n = shiftLeft a (-n) := by
  rcases n.le_toInt.eq_or_lt with hleast | hlt
  · obtain rfl : n = Int64.minValue := Int64.toInt_inj.1 hleast.symm
    rfl
  · apply eq_of_toNat
    rw [toNat_shiftRight, toNat_shiftLeft, toInt_neg_of_lt hlt]

/-! ## Shifts of values -/

/-- **Shifts are exact for every count**, as products and quotients of the word read without a sign by a power of
two that has no bound. So the right shift is the left one by the negated count, and shifts in one direction add
up even where the sum of their counts exceeds any integer. -/
theorem shifts_exact (a n m : Int64) :
    (shiftLeft a n).toUInt64.toNat = moved a.toUInt64.toNat n.toInt ∧
    (shiftRight a n).toUInt64.toNat = moved a.toUInt64.toNat (-n.toInt) ∧
    Value.arith .shl (.integer a) (.integer n) = .ok (.integer (shiftLeft a n)) ∧
    Value.arith .shr (.integer a) (.integer n) = .ok (.integer (shiftRight a n)) ∧
    Value.arith .shr (.integer a) (.integer n) = (do
      let k ← Value.arith .unm (.integer n) (.integer n)
      Value.arith .shl (.integer a) k) ∧
    (0 ≤ n → 0 ≤ m →
      (shiftLeft (shiftLeft a n) m).toUInt64.toNat = moved a.toUInt64.toNat (n.toInt + m.toInt) ∧
      (shiftRight (shiftRight a n) m).toUInt64.toNat = moved a.toUInt64.toNat (-(n.toInt + m.toInt))) := by
  refine ⟨toNat_shiftLeft a n, toNat_shiftRight a n, rfl, rfl, ?_, fun hn hm => ?_⟩
  · show Except.ok (Value.integer (shiftRight a n)) = .ok (.integer (shiftLeft a (-n)))
    rw [shiftRight_eq]
  · obtain ⟨i, hi⟩ := Int.eq_ofNat_of_zero_le (Int64.le_iff_toInt_le.1 hn)
    obtain ⟨j, hj⟩ := Int.eq_ofNat_of_zero_le (Int64.le_iff_toInt_le.1 hm)
    rw [toNat_shiftLeft, toNat_shiftLeft, toNat_shiftRight, toNat_shiftRight, hi, hj, moved_moved,
      moved_moved_neg (toNat_toUInt64_lt a)]
    exact ⟨rfl, rfl⟩

/-- The least count, which is its own negation, and two counts whose sum is beyond the greatest integer. -/
theorem shifts_exact_least :
    (shiftRight (-1) Int64.minValue).toUInt64.toNat = moved (2 ^ 64 - 1) (2 ^ 63) ∧
      (0 : Int64) ≤ Int64.maxValue ∧ (0 : Int64) ≤ 1 ∧
      (shiftRight (shiftRight (-1) Int64.maxValue) 1).toUInt64.toNat = moved (2 ^ 64 - 1) (-2 ^ 63) := by
  have hmax : (0 : Int64) ≤ Int64.maxValue := by decide
  have hone : (0 : Int64) ≤ 1 := by decide
  obtain ⟨-, hleast, -⟩ := shifts_exact (-1) Int64.minValue 1
  obtain ⟨-, -, -, -, -, htwice⟩ := shifts_exact (-1) Int64.maxValue 1
  exact ⟨hleast, hmax, hone, (htwice hmax hone).2⟩

end LuaKernel.Integer
