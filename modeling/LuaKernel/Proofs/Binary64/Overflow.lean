import Mathlib
import LuaKernel.Binary64.Arithmetic
import LuaKernel.Proofs.Binary64.Nearest

/-!
# Large doubles and overflow

Whole numbers below `2 ^ 53` are doubles. Above, a double is a multiple of a power of two, and what is less
than half a step away from it is rounded to it.

* `isInfinite_ofInt_iff`: the least whole number that is rounded to infinity.
* `ofInt_mul_add_of_lt`, `ofInt_mul_add_of_le`: a hexadecimal digit at the end of a whole number. As long as
  the number is below `2 ^ 53` the digit is kept, or rounded with the rest; from there on it is lost.
* `twoPow_eq`: the powers of two, and which of them are zero.
* `isNaN_mul_iff`: an infinity times a zero is the only product of numbers that is none.
-/

namespace LuaKernel.Binary64

theorem infinityMagnitude_eq : infinityMagnitude = 2047 * fractionSize := by
  norm_num [infinityMagnitude, fractionSize]

theorem unitsOf_zero : unitsOf 0 = 0 := by simp [unitsOf, fractionSize]

/-! ## Steps of a magnitude -/

/-- From the first full exponent on, an exponent more is twice the units. -/
theorem unitsOf_add_mul {m : ℕ} (hm : fractionSize ≤ m) (j : ℕ) :
    unitsOf (m + j * fractionSize) = unitsOf m * 2 ^ j := by
  obtain ⟨s, k, rfl, hk, hs⟩ := exists_parts m
  have hk' : fractionSize ≤ k := by
    rcases hs with rfl | hs
    · omega
    · exact hs
  have hsum : s * fractionSize + k + j * fractionSize = (s + j) * fractionSize + k := by ring
  rw [hsum, unitsOf_parts hk.le (.inr hk'), unitsOf_parts hk.le hs, pow_add]
  ring

namespace RoundsTo

variable {q : ℚ} {m : ℕ}

/-- Rounding commutes with a power of two. -/
theorem mul_two_pow (h : RoundsTo q m) (hq : fractionSize ≤ q) (j : ℕ) :
    RoundsTo (q * 2 ^ j) (m + j * fractionSize) := by
  obtain ⟨s, k, rfl, hlt, hge, hk⟩ := h
  have hpow : (0 : ℚ) < 2 ^ j := by positivity
  have hge' : (fractionSize : ℚ) * 2 ^ s ≤ q := by
    rcases hge with rfl | hge
    · simpa using hq
    · exact hge
  refine ⟨s + j, k, by ring, ?_, .inr ?_, ?_⟩
  · rw [pow_add, ← mul_assoc]
    exact mul_lt_mul_of_pos_right hlt hpow
  · rw [pow_add, ← mul_assoc]
    exact mul_le_mul_of_nonneg_right hge' hpow.le
  · rwa [pow_add, mul_div_mul_right _ _ hpow.ne']

/-- Less than half a step more is lost. The step is `2 ^ s` units at least, `s` exponents up. -/
theorem add_of_lt {s : ℕ} (hm : (s + 1) * fractionSize ≤ m) {d : ℚ} (h0 : 0 ≤ d) (hd : 2 * d < 2 ^ s) :
    RoundsTo (unitsOf m + d) m := by
  obtain ⟨s', k, rfl, hk, hs'⟩ := exists_parts m
  have hle : s ≤ s' := by
    by_contra hlt
    have : (s' + 2) * fractionSize ≤ (s + 1) * fractionSize := Nat.mul_le_mul_right _ (by omega)
    linarith
  have hpow : (0 : ℚ) < 2 ^ s' := by positivity
  have hd' : 2 * d < 2 ^ s' := hd.trans_le (pow_le_pow_right₀ (by norm_num) hle)
  have hk' : (k : ℚ) + 1 ≤ 2 * fractionSize := by exact_mod_cast hk
  have hnear : |(k : ℚ) - (k * 2 ^ s' + d) / 2 ^ s'| = d / 2 ^ s' := by
    rw [add_div, mul_div_cancel_right₀ _ hpow.ne', sub_add_cancel_left, abs_neg, abs_of_nonneg (by positivity)]
  rw [unitsOf_parts hk.le hs']
  push_cast
  refine ⟨s', k, rfl, by nlinarith, hs'.imp_right fun hs' => ?_, .of_lt ?_⟩
  · have : (fractionSize : ℚ) ≤ k := by exact_mod_cast hs'
    nlinarith
  · rw [hnear, div_lt_iff₀ hpow]
    linarith

/-- **Overflow.** The middle between the greatest finite magnitude and the next one goes to the next one,
which is even. -/
theorem infinityMagnitude_le_iff (h : RoundsTo q m) :
    infinityMagnitude ≤ m ↔ (2 ^ 54 - 1) * 2 ^ 2044 ≤ q := by
  have hF : (fractionSize : ℚ) = 2 ^ 52 := by exact_mod_cast fractionSize_eq
  have hdouble : (2 : ℚ) ^ 2045 = 2 * 2 ^ 2044 := pow_succ' 2 2044
  have hpos : (0 : ℚ) < 2 ^ 2044 := by positivity
  generalize (2 : ℚ) ^ 2044 = p at hdouble hpos ⊢
  rw [infinityMagnitude_eq]
  constructor
  · intro hm
    obtain ⟨s, k, rfl, hlt, hge, hk⟩ := h
    obtain ⟨hk2, -⟩ := halfEven_bounds hlt hge hk
    have hs : 2045 ≤ s := by
      by_contra hs
      have : s * fractionSize ≤ 2044 * fractionSize := Nat.mul_le_mul_right _ (by omega)
      have := fractionSize_pos
      omega
    rcases Nat.eq_or_lt_of_le hs with rfl | hs
    · have hk' : ((2 * fractionSize : ℕ) : ℚ) ≤ k := by exact_mod_cast (by omega : 2 * fractionSize ≤ k)
      have hclose := (abs_le.1 hk.close).2
      rw [sub_le_comm, le_div_iff₀ (by positivity), hdouble] at hclose
      push_cast [hF] at hk'
      nlinarith only [hclose, hk', hpos]
    · have hge' := hge.resolve_left (by omega)
      have hpow : (2 : ℚ) * 2 ^ 2045 ≤ 2 ^ s := by
        rw [← pow_succ']
        exact pow_le_pow_right₀ (by norm_num) hs
      rw [hF] at hge'
      rw [hdouble] at hpow
      linarith only [hge', hpow, hpos]
  · intro hq
    have hmiddle : RoundsTo ((2 ^ 54 - 1) * p) (2045 * fractionSize + 2 * fractionSize) := by
      refine ⟨2045, 2 * fractionSize, rfl, ?_, .inr ?_, ?_, fun _ => Nat.mul_mod_right ..⟩
      · rw [hF, hdouble]
        linarith only [hpos]
      · rw [hF, hdouble]
        linarith only [hpos]
      · have hhalf : ((2 : ℚ) ^ 54 - 1) * p / 2 ^ 2045 = 2 ^ 53 - 1 / 2 := by
          rw [hdouble, mul_div_mul_right _ _ hpos.ne']
          norm_num
        rw [hhalf]
        push_cast [hF]
        norm_num
    have hle := hmiddle.mono hq h
    omega

end RoundsTo

theorem nearestMagnitude_of_roundsTo {num den m : ℕ} (hden : 0 < den) (h : RoundsTo ((num : ℚ) / den) m) :
    nearestMagnitude num den = min m infinityMagnitude := by
  obtain ⟨m', hm', hmin⟩ := roundsTo_nearestMagnitude num den hden
  rw [hmin, h.unique hm']

/-! ## Whole numbers -/

/-- Whole numbers of 53 bits, and their multiples by powers of two up to the greatest exponent. -/
theorem exists_unitsOf_eq {n j : ℕ} (hn : n < 2 ^ 53) (hj : j ≤ 971) :
    ∃ m < infinityMagnitude, unitsOf m = n * 2 ^ j * unitsPerOne := by
  have hF := fractionSize_pos
  rw [infinityMagnitude_eq]
  rcases Nat.eq_zero_or_pos n with rfl | hpos
  · exact ⟨0, by omega, by rw [unitsOf_zero, zero_mul, zero_mul]⟩
  have hlog : n.log2 ≤ 52 := Nat.le_of_lt_succ ((Nat.log2_lt hpos.ne').2 hn)
  -- The bits of `n` are moved up until there are 53.
  have hlow : fractionSize ≤ n * 2 ^ (52 - n.log2) := by
    have h := Nat.mul_le_mul_right (2 ^ (52 - n.log2)) (Nat.log2_self_le hpos.ne')
    rwa [← pow_add, Nat.add_sub_cancel' hlog, ← fractionSize_eq] at h
  have hhigh : n * 2 ^ (52 - n.log2) < 2 * fractionSize := by
    have h := Nat.mul_lt_mul_of_pos_right (Nat.lt_log2_self (n := n)) (Nat.two_pow_pos (52 - n.log2))
    rwa [← pow_add, show n.log2 + 1 + (52 - n.log2) = 52 + 1 by omega, pow_succ', ← fractionSize_eq] at h
  refine ⟨(1022 + n.log2 + j) * fractionSize + n * 2 ^ (52 - n.log2), ?_, ?_⟩
  · have : (1022 + n.log2 + j) * fractionSize ≤ 2045 * fractionSize := Nat.mul_le_mul_right _ (by omega)
    omega
  · rw [unitsOf_parts hhigh.le (.inr hlow), unitsPerOne_eq, mul_assoc, mul_assoc, ← pow_add, ← pow_add]
    congr 2
    omega

theorem ofInt_natCast (n : ℕ) : ofInt n = nearest false (n * unitsPerOne) 1 := by
  have hsign : ¬(n : ℤ) < 0 := by omega
  simp only [ofInt, hsign, decide_false, Int.natAbs_natCast]

/-- The least whole number that is rounded to infinity. -/
def overflowBound : ℕ := 2 ^ 1024 - 2 ^ 970

theorem overflowBound_eq : overflowBound = (2 ^ 54 - 1) * 2 ^ 970 := by
  rw [overflowBound, Nat.sub_mul, one_mul, ← pow_add]

/-- **Overflow of whole numbers.** -/
theorem isInfinite_ofInt_iff {n : ℕ} : (ofInt n).isInfinite ↔ overflowBound ≤ n := by
  obtain ⟨m, hm, hmin⟩ := roundsTo_nearestMagnitude (n * unitsPerOne) 1 one_pos
  have hbound : ((2 : ℚ) ^ 54 - 1) * 2 ^ 2044 = overflowBound * unitsPerOne := by
    have hsplit : (2 : ℚ) ^ 2044 = 2 ^ 970 * 2 ^ 1074 := pow_add 2 970 1074
    have hbits : ((2 ^ 54 - 1 : ℕ) : ℚ) = 2 ^ 54 - 1 := by norm_num
    rw [overflowBound_eq, unitsPerOne_eq, hsplit, Nat.cast_mul, hbits, Nat.cast_pow, Nat.cast_pow,
      Nat.cast_ofNat, mul_assoc]
  have hU : (0 : ℚ) < unitsPerOne := by exact_mod_cast unitsPerOne_pos
  have hiff := hm.infinityMagnitude_le_iff
  rw [hbound, Nat.cast_one, div_one, Nat.cast_mul, mul_le_mul_iff_left₀ hU, Nat.cast_le] at hiff
  rw [← hiff, ofInt_natCast, isInfinite, magnitude_nearest, hmin]
  simp

/-! ## Operations on numbers that are not negative -/

section
variable {m k : ℕ}

theorem isNaN_ofMagnitude {negative : Bool} (hm : m ≤ infinityMagnitude) :
    (ofMagnitude negative m).isNaN = false := by
  rw [isNaN, magnitude_ofMagnitude (hm.trans_lt infinityMagnitude_lt)]
  exact decide_eq_false (by omega)

theorem isInfinite_ofMagnitude {negative : Bool} (hm : m ≤ infinityMagnitude) :
    (ofMagnitude negative m).isInfinite = decide (m = infinityMagnitude) := by
  rw [isInfinite, magnitude_ofMagnitude (hm.trans_lt infinityMagnitude_lt)]

theorem isZero_ofMagnitude {negative : Bool} (hm : m ≤ infinityMagnitude) :
    (ofMagnitude negative m).isZero = decide (m = 0) := by
  rw [isZero, magnitude_ofMagnitude (hm.trans_lt infinityMagnitude_lt)]

theorem absUnits_ofMagnitude {negative : Bool} (hm : m ≤ infinityMagnitude) :
    (ofMagnitude negative m).absUnits = unitsOf m := by
  rw [absUnits, magnitude_ofMagnitude (hm.trans_lt infinityMagnitude_lt)]

theorem units_ofMagnitude (hm : m ≤ infinityMagnitude) : (ofMagnitude false m).units = unitsOf m := by
  rw [units, absUnits_ofMagnitude hm, isNegative_ofMagnitude (hm.trans_lt infinityMagnitude_lt)]
  rfl

theorem mul_ofMagnitude (hm : m < infinityMagnitude) (hk : k < infinityMagnitude) :
    (ofMagnitude false m).mul (ofMagnitude false k) = nearest false (unitsOf m * unitsOf k) unitsPerOne := by
  simp only [mul, isNaN_ofMagnitude hm.le, isNaN_ofMagnitude hk.le, isInfinite_ofMagnitude hm.le,
    isInfinite_ofMagnitude hk.le, absUnits_ofMagnitude hm.le, absUnits_ofMagnitude hk.le,
    isNegative_ofMagnitude (hm.trans infinityMagnitude_lt), isNegative_ofMagnitude (hk.trans infinityMagnitude_lt),
    hm.ne, hk.ne]
  rfl

theorem add_ofMagnitude (hm : m < infinityMagnitude) (hk : k < infinityMagnitude) :
    (ofMagnitude false m).add (ofMagnitude false k) = nearest false (unitsOf m + unitsOf k) 1 := by
  have hsum : (unitsOf m : ℤ) + unitsOf k = (unitsOf m + unitsOf k : ℕ) := by push_cast; rfl
  simp only [add, isNaN_ofMagnitude hm.le, isNaN_ofMagnitude hk.le, isInfinite_ofMagnitude hm.le,
    isInfinite_ofMagnitude hk.le, units_ofMagnitude hm.le, units_ofMagnitude hk.le, hm.ne, hk.ne,
    isNegative_ofMagnitude (hm.trans infinityMagnitude_lt), isNegative_ofMagnitude (hk.trans infinityMagnitude_lt),
    hsum, Int.natAbs_natCast]
  generalize unitsOf m + unitsOf k = s
  rcases Nat.eq_zero_or_pos s with rfl | hs
  · rfl
  · have hsign : ¬(s : ℤ) < 0 := by omega
    simp [hs.ne', hsign]

theorem div_ofMagnitude (hm : m < infinityMagnitude) (h0 : 0 < k) (hk : k < infinityMagnitude) :
    (ofMagnitude false m).div (ofMagnitude false k) = nearest false (unitsOf m * unitsPerOne) (unitsOf k) := by
  simp only [div, isNaN_ofMagnitude hm.le, isNaN_ofMagnitude hk.le, isInfinite_ofMagnitude hm.le,
    isInfinite_ofMagnitude hk.le, isZero_ofMagnitude hk.le, absUnits_ofMagnitude hm.le,
    absUnits_ofMagnitude hk.le, isNegative_ofMagnitude (hm.trans infinityMagnitude_lt),
    isNegative_ofMagnitude (hk.trans infinityMagnitude_lt), hm.ne, hk.ne, h0.ne']
  rfl

theorem div_infinity (hm : m < infinityMagnitude) :
    (ofMagnitude false m).div (ofMagnitude false infinityMagnitude) = zero false := by
  simp only [div, isNaN_ofMagnitude hm.le, isNaN_ofMagnitude le_rfl, isInfinite_ofMagnitude hm.le,
    isInfinite_ofMagnitude le_rfl, isNegative_ofMagnitude (hm.trans infinityMagnitude_lt),
    isNegative_ofMagnitude infinityMagnitude_lt, hm.ne]
  rfl

theorem infinity_mul (h0 : 0 < k) (hk : k ≤ infinityMagnitude) :
    (infinity false).mul (ofMagnitude false k) = infinity false := by
  have hne : infinityMagnitude ≠ 0 := by decide
  simp only [infinity, mul, isNaN_ofMagnitude le_rfl, isNaN_ofMagnitude hk, isInfinite_ofMagnitude le_rfl,
    isZero_ofMagnitude le_rfl, isZero_ofMagnitude hk, isNegative_ofMagnitude infinityMagnitude_lt,
    isNegative_ofMagnitude (hk.trans_lt infinityMagnitude_lt), h0.ne', hne]
  rfl

theorem infinity_add (hk : k ≤ infinityMagnitude) :
    (infinity false).add (ofMagnitude false k) = infinity false := by
  simp [infinity, add, isNaN_ofMagnitude le_rfl, isNaN_ofMagnitude hk, isInfinite_ofMagnitude le_rfl,
    isNegative_ofMagnitude infinityMagnitude_lt, isNegative_ofMagnitude (hk.trans_lt infinityMagnitude_lt)]

end

/-! ## A digit more -/

section
variable {n d : ℕ}

theorem exists_ofInt_eq (hn : n < 2 ^ 53) :
    ∃ m < infinityMagnitude, ofInt n = ofMagnitude false m ∧ unitsOf m = n * unitsPerOne := by
  obtain ⟨m, hlt, hm⟩ := exists_unitsOf_eq hn (Nat.zero_le 971)
  rw [pow_zero, mul_one] at hm
  refine ⟨m, hlt, ?_, hm⟩
  rw [ofInt_natCast, nearest, nearestMagnitude_of_eq one_pos hlt.le (by rw [hm, mul_one])]

/-- **A digit at the end of a small number**: the product is exact, and the sum is rounded. -/
theorem ofInt_mul_add_of_lt (hn : n < 2 ^ 53) (hd : d < 16) :
    ((ofInt n).mul (ofInt 16)).add (ofInt d) = ofInt (n * 16 + d : ℕ) := by
  obtain ⟨m, hm, hofm, hunits⟩ := exists_ofInt_eq hn
  obtain ⟨b, hb, hofb, hbase⟩ := exists_ofInt_eq (n := 16) (by norm_num)
  obtain ⟨k, hk, hofk, hdigit⟩ := exists_ofInt_eq (n := d) (by omega)
  obtain ⟨p, hp, hproduct⟩ := exists_unitsOf_eq (j := 4) hn (by norm_num)
  have hmul : nearestMagnitude (n * unitsPerOne * (16 * unitsPerOne)) unitsPerOne = p :=
    nearestMagnitude_of_eq unitsPerOne_pos hp.le (by rw [hproduct]; ring)
  have hsum : n * 2 ^ 4 * unitsPerOne + d * unitsPerOne = (n * 16 + d) * unitsPerOne := by ring
  rw [hofm, hofk, show ofInt 16 = ofMagnitude false b from hofb, mul_ofMagnitude hm hb, hunits, hbase, nearest,
    hmul, add_ofMagnitude hp hk, hproduct, hdigit, hsum, ofInt_natCast]

theorem mul_ofInt_sixteen {m : ℕ} (hm : fractionSize ≤ m) :
    (ofMagnitude false (min m infinityMagnitude)).mul (ofInt 16) =
      ofMagnitude false (min (m + 4 * fractionSize) infinityMagnitude) := by
  obtain ⟨b, hb, hofb, hbase⟩ := exists_ofInt_eq (n := 16) (by norm_num)
  rw [show ofInt 16 = ofMagnitude false b from hofb]
  rcases Nat.lt_or_ge m infinityMagnitude with hlt | hge
  · have hround : RoundsTo ((unitsOf m * (16 * unitsPerOne) : ℕ) / unitsPerOne) (m + 4 * fractionSize) := by
      have hU : (unitsPerOne : ℚ) ≠ 0 := by exact_mod_cast unitsPerOne_pos.ne'
      have hexact := RoundsTo.exact (m + 4 * fractionSize)
      rw [unitsOf_add_mul hm] at hexact
      rwa [← mul_assoc, Nat.cast_mul, mul_div_cancel_right₀ _ hU]
    rw [min_eq_left hlt.le, mul_ofMagnitude hlt hb, hbase, nearest,
      nearestMagnitude_of_roundsTo unitsPerOne_pos hround]
  · have hb0 : 0 < b := by
      by_contra hb0
      obtain rfl : b = 0 := by omega
      rw [unitsOf_zero] at hbase
      have := unitsPerOne_pos
      omega
    rw [min_eq_right hge, min_eq_right (by omega)]
    exact infinity_mul hb0 hb.le

theorem add_ofInt_of_le {m : ℕ} (hm : 1080 * fractionSize ≤ m) (hd : d < 16) :
    (ofMagnitude false (min m infinityMagnitude)).add (ofInt d) =
      ofMagnitude false (min m infinityMagnitude) := by
  obtain ⟨k, hk, hofk, hdigit⟩ := exists_ofInt_eq (n := d) (by omega)
  rw [hofk]
  rcases Nat.lt_or_ge m infinityMagnitude with hlt | hge
  · have hround : RoundsTo ((unitsOf m + d * unitsPerOne : ℕ) / (1 : ℕ)) m := by
      have hd5 : 2 * d < 2 ^ 5 := by omega
      have hd' : 2 * (d * unitsPerOne) < 2 ^ 1079 := by
        rw [unitsPerOne_eq, show 1079 = 5 + 1074 from rfl, pow_add, ← mul_assoc]
        exact Nat.mul_lt_mul_of_pos_right hd5 (by positivity)
      have hhalf : ((2 * (d * unitsPerOne) : ℕ) : ℚ) < (2 ^ 1079 : ℕ) := Nat.cast_lt.2 hd'
      rw [Nat.cast_mul, Nat.cast_pow, Nat.cast_ofNat] at hhalf
      rw [Nat.cast_one, div_one, Nat.cast_add]
      exact RoundsTo.add_of_lt hm (Nat.cast_nonneg _) hhalf
    rw [min_eq_left hlt.le, add_ofMagnitude hlt hk, hdigit, nearest, nearestMagnitude_of_roundsTo one_pos hround,
      min_eq_left hlt.le]
  · rw [min_eq_right hge]
    exact infinity_add hk.le

/-- **A digit at the end of a large number** is less than half a step of the product, and lost. -/
theorem ofInt_mul_add_of_le (hn : 2 ^ 53 ≤ n) (hd : d < 16) :
    ((ofInt n).mul (ofInt 16)).add (ofInt d) = ofInt (n * 16 : ℕ) := by
  obtain ⟨m, hm, hmin⟩ := roundsTo_nearestMagnitude (n * unitsPerOne) 1 one_pos
  rw [Nat.cast_one, div_one] at hm
  have hunits : unitsOf (1075 * fractionSize + fractionSize) = 2 ^ 53 * unitsPerOne := by
    rw [unitsOf_parts (by omega) (.inr le_rfl), fractionSize_eq, unitsPerOne_eq, ← pow_add, ← pow_add]
  have hle : 2 ^ 53 * unitsPerOne ≤ n * unitsPerOne := Nat.mul_le_mul_right _ hn
  have hlarge : 1075 * fractionSize + fractionSize ≤ m := by
    refine (RoundsTo.exact _).mono ?_ hm
    rw [hunits]
    exact_mod_cast hle
  have hnormal : (fractionSize : ℚ) ≤ (n * unitsPerOne : ℕ) := by
    have : fractionSize ≤ 2 ^ 53 * unitsPerOne := by
      have := unitsPerOne_pos
      rw [fractionSize_eq]
      omega
    exact_mod_cast this.trans hle
  have hround : RoundsTo ((n * 16 * unitsPerOne : ℕ) / (1 : ℕ)) (m + 4 * fractionSize) := by
    have h := hm.mul_two_pow hnormal 4
    rw [show (n * unitsPerOne : ℕ) * (2 : ℚ) ^ 4 = (n * 16 * unitsPerOne : ℕ) by push_cast; ring] at h
    rwa [Nat.cast_one, div_one]
  rw [ofInt_natCast n, ofInt_natCast (n * 16), nearest, nearest, hmin, nearestMagnitude_of_roundsTo one_pos hround,
    mul_ofInt_sixteen (by omega), add_ofInt_of_le (by omega) hd]

end

/-! ## Powers of two -/

theorem unitsOf_one : unitsOf (1023 * fractionSize) = unitsPerOne := by
  rw [show 1023 * fractionSize = 1022 * fractionSize + fractionSize by ring,
    unitsOf_parts (by omega) (.inr le_rfl), fractionSize_eq, unitsPerOne_eq, ← pow_add]

theorem twoPowNat_eq (n : ℕ) :
    twoPowNat n = ofMagnitude false (1023 * fractionSize + min n 1024 * fractionSize) := by
  have hle : 1023 * fractionSize + min n 1024 * fractionSize ≤ infinityMagnitude := by
    rw [← add_mul, infinityMagnitude_eq]
    exact Nat.mul_le_mul_right _ (by omega)
  have hunits : unitsPerOne <<< min n 1024 =
      unitsOf (1023 * fractionSize + min n 1024 * fractionSize) * 1 := by
    rw [unitsOf_add_mul (by omega), unitsOf_one, Nat.shiftLeft_eq, mul_one]
  rw [twoPowNat, nearest, nearestMagnitude_of_eq one_pos hle hunits]

theorem nearestMagnitude_pos {num den : ℕ} (hden : 0 < den) (h : den ≤ num) : 0 < nearestMagnitude num den := by
  have hone : nearestMagnitude 1 1 = 1 :=
    nearestMagnitude_of_eq one_pos (by decide) (by simp [unitsOf, fractionSize])
  have hle : nearestMagnitude 1 1 ≤ nearestMagnitude num den := by
    refine nearestMagnitude_mono one_pos hden ?_
    rw [Nat.cast_one, div_one, one_le_div (by exact_mod_cast hden)]
    exact_mod_cast h
  omega

/-- A power of two is not negative and not a NaN, and it is zero exactly if its reciprocal overflows. -/
theorem twoPow_eq (e : ℤ) :
    ∃ m, twoPow e = ofMagnitude false m ∧ m ≤ infinityMagnitude ∧ (m = 0 ↔ e ≤ -1024) := by
  have hF := fractionSize_pos
  have hinf := infinityMagnitude_eq
  unfold twoPow
  split
  · have : min e.toNat 1024 * fractionSize ≤ 1024 * fractionSize := Nat.mul_le_mul_right _ (by omega)
    exact ⟨_, twoPowNat_eq _, by omega, by omega⟩
  obtain ⟨k, rfl⟩ : ∃ k : ℕ, e = -k := ⟨e.natAbs, by omega⟩
  have hone : twoPowNat 0 = ofMagnitude false (1023 * fractionSize) := twoPowNat_eq 0
  rw [neg_neg, Int.toNat_natCast, hone, twoPowNat_eq]
  rcases Nat.lt_or_ge k 1024 with hk | hk
  · -- The reciprocal is `2 ^ (1074 - k)` units.
    have hlt : k * fractionSize ≤ 1023 * fractionSize := Nat.mul_le_mul_right _ (by omega)
    rw [min_eq_left hk.le, div_ofMagnitude (by omega) (by omega) (by omega), unitsOf_add_mul (by omega),
      unitsOf_one]
    have hpos : 0 < nearestMagnitude (unitsPerOne * unitsPerOne) (unitsPerOne * 2 ^ k) := by
      refine nearestMagnitude_pos (Nat.mul_pos unitsPerOne_pos (Nat.two_pow_pos k)) (Nat.mul_le_mul_left _ ?_)
      rw [unitsPerOne_eq]
      exact pow_le_pow_right₀ one_le_two (by omega)
    exact ⟨_, rfl, nearestMagnitude_le .., by omega⟩
  · have hover : 1023 * fractionSize + min k 1024 * fractionSize = infinityMagnitude := by
      rw [min_eq_right hk]
      omega
    rw [hover]
    exact ⟨0, div_infinity (by omega), Nat.zero_le _, by omega⟩

/-! ## Results that are no number -/

theorem isNaN_neg (x : Binary64) : x.neg.isNaN = x.isNaN := by
  have hlt : x.magnitude < signBit := Nat.mod_lt _ (by decide)
  rw [neg, isNaN, magnitude_ofMagnitude hlt, isNaN]

theorem isNaN_ofScientific (negative : Bool) (digits : ℕ) (exponent : ℤ) :
    (ofScientific negative digits exponent).isNaN = false := by
  unfold ofScientific
  split_ifs
  · exact isNaN_ofMagnitude (Nat.zero_le _)
  · exact isNaN_ofMagnitude le_rfl
  · exact isNaN_ofMagnitude (Nat.zero_le _)
  · exact isNaN_nearest ..
  · exact isNaN_nearest ..

theorem not_isInfinite_of_isZero {x : Binary64} (h : x.isZero) : ¬x.isInfinite := by
  have hne : infinityMagnitude ≠ 0 := by decide
  simp only [isInfinite, isZero, decide_eq_true_eq] at h ⊢
  omega

/-- **A product of numbers is no number** where an infinity meets a zero, and only there. -/
theorem isNaN_mul_iff {x y : Binary64} (hx : x.isNaN = false) (hy : y.isNaN = false) :
    (x.mul y).isNaN ↔ (x.isInfinite ∧ y.isZero) ∨ (x.isZero ∧ y.isInfinite) := by
  have hx' : x.isZero → ¬x.isInfinite := not_isInfinite_of_isZero
  have hy' : y.isZero → ¬y.isInfinite := not_isInfinite_of_isZero
  simp only [mul, hx, hy, Bool.or_self, Bool.false_eq_true, if_false, Bool.or_eq_true]
  split
  · split
    · have hnan : nan.isNaN := by decide
      simp only [hnan, true_iff]
      tauto
    · have hinf : (infinity (x.isNegative != y.isNegative)).isNaN = false := isNaN_ofMagnitude le_rfl
      simp only [hinf, Bool.false_eq_true, false_iff]
      tauto
  · simp only [isNaN_nearest, Bool.false_eq_true, false_iff]
    tauto

end LuaKernel.Binary64
