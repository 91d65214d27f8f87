import Mathlib
import LuaKernel.Binary64.Order
import LuaKernel.Proofs.Binary64.HalfEven

/-!
# The nearest double

A magnitude is a scale `s` and a whole number `k` of at most 53 bits, and stands for `k * 2 ^ s` units
(`unitsOf_parts`). `RoundsTo q m`: of all magnitudes, were there no greatest one, `m` is the nearest to `q`
units and the even one of two.

* `roundsTo_nearestMagnitude`: what `nearestMagnitude` computes, below infinity.
* `RoundsTo.mono`: rounding keeps the order.
* `RoundsTo.exact`: a number of units that a magnitude stands for is rounded to it.
* `RoundsTo.nearest`: no magnitude of either sign is nearer.
* `isNearest_nearest`: the same for doubles and the rationals they stand for (`value`).
-/

namespace LuaKernel.Binary64

theorem fractionSize_eq : fractionSize = 2 ^ 52 := by norm_num [fractionSize]

theorem fractionSize_pos : 0 < fractionSize := by norm_num [fractionSize]

theorem fractionSize_even : fractionSize % 2 = 0 := by norm_num [fractionSize]

theorem unitsPerOne_eq : unitsPerOne = 2 ^ 1074 := by decide +kernel

theorem unitsPerOne_pos : 0 < unitsPerOne := by rw [unitsPerOne_eq]; positivity

/-! ## Scale and whole number of a magnitude -/

/-- The units of a magnitude. The whole number may be one more than 53 bits hold, which is the first one
of the next scale. -/
theorem unitsOf_parts {s k : ℕ} (hk : k ≤ 2 * fractionSize) (hs : s = 0 ∨ fractionSize ≤ k) :
    unitsOf (s * fractionSize + k) = k * 2 ^ s := by
  have hpos := fractionSize_pos
  unfold unitsOf
  rcases Nat.lt_or_ge k fractionSize with hlt | hge
  · obtain rfl : s = 0 := by omega
    rw [if_pos (by omega)]
    simp
  rw [if_neg (by nlinarith [Nat.zero_le (s * fractionSize)]), Nat.shiftLeft_eq]
  rcases Nat.lt_or_ge k (2 * fractionSize) with hlt | hge'
  · obtain ⟨j, rfl⟩ := Nat.exists_eq_add_of_le hge
    have hsum : s * fractionSize + (fractionSize + j) = j + fractionSize * (s + 1) := by ring
    have hj : j < fractionSize := by omega
    rw [hsum, Nat.add_mul_mod_self_left, Nat.add_mul_div_left _ _ hpos, Nat.mod_eq_of_lt hj,
      Nat.div_eq_of_lt hj]
    simp
  · obtain rfl : k = 2 * fractionSize := by omega
    have hsum : s * fractionSize + 2 * fractionSize = fractionSize * (s + 2) := by ring
    rw [hsum, Nat.mul_mod_right, Nat.mul_div_cancel_left _ hpos]
    simp only [Nat.add_zero, Nat.add_one_sub_one, pow_succ]
    ring

theorem exists_parts (m : ℕ) :
    ∃ s k, m = s * fractionSize + k ∧ k < 2 * fractionSize ∧ (s = 0 ∨ fractionSize ≤ k) := by
  have hpos := fractionSize_pos
  have hmod := Nat.mod_lt m hpos
  have hsum := Nat.div_add_mod m fractionSize
  rcases Nat.eq_zero_or_pos (m / fractionSize) with h0 | h0
  · exact ⟨0, m, by ring, by nlinarith, .inl rfl⟩
  · refine ⟨m / fractionSize - 1, fractionSize + m % fractionSize, ?_, by omega, .inr (by omega)⟩
    obtain ⟨t, ht⟩ : ∃ t, m / fractionSize = t + 1 := ⟨_, (Nat.sub_add_cancel h0).symm⟩
    rw [ht] at hsum ⊢
    rw [Nat.add_sub_cancel]
    linarith

/-! ## Rounding to a magnitude -/

/-- The magnitude nearest to `q` units, the even one of two, if there were no greatest one. The scale is
the least that leaves 53 bits, or zero. -/
def RoundsTo (q : ℚ) (m : ℕ) : Prop :=
  ∃ s k : ℕ, m = s * fractionSize + k ∧ q < 2 * fractionSize * 2 ^ s ∧
    (s = 0 ∨ fractionSize * 2 ^ s ≤ q) ∧ HalfEven k (q / 2 ^ s)

theorem halfEven_bounds {q : ℚ} {s k : ℕ} (hlt : q < 2 * fractionSize * 2 ^ s)
    (hge : s = 0 ∨ fractionSize * 2 ^ s ≤ q) (hk : HalfEven k (q / 2 ^ s)) :
    k ≤ 2 * fractionSize ∧ (s = 0 ∨ fractionSize ≤ k) := by
  have hu : (0 : ℚ) < 2 ^ s := by positivity
  constructor
  · have htop : q / 2 ^ s ≤ (2 * fractionSize : ℕ) := by
      rw [div_le_iff₀ hu]
      push_cast
      exact hlt.le
    exact hk.mono htop (.of_eq rfl)
  · refine hge.imp_right fun hge => HalfEven.mono (q := fractionSize) ?_ (.of_eq rfl) hk
    rwa [le_div_iff₀ hu]

theorem roundsTo_nearestMagnitude (num den : ℕ) (hden : 0 < den) :
    ∃ m, RoundsTo ((num : ℚ) / den) m ∧ nearestMagnitude num den = min m infinityMagnitude := by
  have hd : (0 : ℚ) < den := by exact_mod_cast hden
  set n := num / den with hn
  set s := n.log2 - 52 with hs
  have hlow : (n : ℚ) ≤ num / den := by
    rw [le_div_iff₀ hd]
    exact_mod_cast Nat.div_mul_le_self num den
  have hhigh : (num : ℚ) / den < (n + 1 : ℕ) := by
    rw [div_lt_iff₀ hd]
    exact_mod_cast (Nat.div_lt_iff_lt_mul hden).1 (Nat.lt_succ_self n)
  refine ⟨_, ⟨s, roundDiv num (den <<< s), rfl, ?_, ?_, ?_⟩, rfl⟩
  · have hbits : n + 1 ≤ 2 * fractionSize * 2 ^ s := by
      rw [fractionSize_eq, ← pow_succ', ← pow_add]
      exact (Nat.lt_log2_self (n := n)).trans_le (Nat.pow_le_pow_right (by norm_num) (by omega))
    exact hhigh.trans_le (by exact_mod_cast hbits)
  · rcases Nat.eq_zero_or_pos s with h0 | h0
    · exact .inl h0
    · right
      have hn0 : n ≠ 0 := by
        rintro h
        rw [h, Nat.log2_zero] at hs
        omega
      have hbits : fractionSize * 2 ^ s ≤ n := by
        rw [fractionSize_eq, ← pow_add, show 52 + s = n.log2 by omega]
        exact Nat.log2_self_le hn0
      exact le_trans (by exact_mod_cast hbits) hlow
  · have h := halfEven_roundDiv num (den * 2 ^ s) (by positivity)
    rw [Nat.cast_mul, Nat.cast_pow, Nat.cast_ofNat, ← div_div] at h
    rwa [Nat.shiftLeft_eq]

namespace RoundsTo

variable {q q' : ℚ} {m m' : ℕ}

/-- **Rounding keeps the order.** A greater scale has the greater magnitude in any case. -/
theorem mono (hq : q ≤ q') (h : RoundsTo q m) (h' : RoundsTo q' m') : m ≤ m' := by
  obtain ⟨s, k, rfl, hlt, hge, hk⟩ := h
  obtain ⟨s', k', rfl, hlt', hge', hk'⟩ := h'
  have hF : (0 : ℚ) < fractionSize := by exact_mod_cast fractionSize_pos
  rcases Nat.lt_trichotomy s s' with hs | rfl | hs
  · obtain ⟨hk2, -⟩ := halfEven_bounds hlt hge hk
    obtain ⟨-, h0 | hk1⟩ := halfEven_bounds hlt' hge' hk'
    · omega
    · nlinarith
  · have hk := hk.mono (div_le_div_of_nonneg_right hq (by positivity)) hk'
    omega
  · -- The scale is not greater for the smaller number.
    exfalso
    have hpow : (2 : ℚ) * 2 ^ s' ≤ 2 ^ s := by
      rw [← pow_succ']
      exact pow_le_pow_right₀ (by norm_num) hs
    rcases hge with h0 | hge
    · omega
    · nlinarith

theorem unique (h : RoundsTo q m) (h' : RoundsTo q m') : m = m' :=
  Nat.le_antisymm (h.mono le_rfl h') (h'.mono le_rfl h)

theorem exact (m : ℕ) : RoundsTo (unitsOf m) m := by
  obtain ⟨s, k, rfl, hk, hs⟩ := exists_parts m
  have hu : (0 : ℚ) < 2 ^ s := by positivity
  rw [unitsOf_parts hk.le hs]
  refine ⟨s, k, rfl, ?_, hs.imp_right fun hs => ?_, .of_eq ?_⟩
  · push_cast
    have : (k : ℚ) < 2 * fractionSize := by exact_mod_cast hk
    nlinarith
  · push_cast
    have : (fractionSize : ℚ) ≤ k := by exact_mod_cast hs
    nlinarith
  · push_cast
    rw [mul_div_cancel_right₀ _ hu.ne']

/-- A magnitude, with either sign, is on the grid of a scale, or too small for the scale. -/
theorem grid_or_lt (s : ℕ) {y : ℚ} (hy : |y| = unitsOf m) :
    (∃ n : ℤ, y = n * 2 ^ s) ∨ (0 < s ∧ y < fractionSize * 2 ^ s) := by
  obtain ⟨s', k, rfl, hk, hs'⟩ := exists_parts m
  rw [unitsOf_parts hk.le hs'] at hy
  rcases Nat.lt_or_ge s' s with hs | hs
  · refine .inr ⟨by omega, (le_abs_self y).trans_lt ?_⟩
    have hlt : k * 2 ^ s' < fractionSize * 2 ^ s := by
      calc k * 2 ^ s' < 2 * fractionSize * 2 ^ s' := Nat.mul_lt_mul_of_pos_right hk (by positivity)
        _ = fractionSize * 2 ^ (s' + 1) := by ring
        _ ≤ fractionSize * 2 ^ s := Nat.mul_le_mul_left _ (Nat.pow_le_pow_right (by norm_num) hs)
    rw [hy]
    exact_mod_cast hlt
  · left
    have hpow : ((k * 2 ^ s' : ℕ) : ℚ) = (k * 2 ^ (s' - s) : ℕ) * 2 ^ s := by
      push_cast
      rw [mul_assoc, ← pow_add, Nat.sub_add_cancel hs]
    rw [hpow] at hy
    rcases abs_eq_abs.1 (hy.trans (abs_of_nonneg (by positivity)).symm) with h | h
    · exact ⟨(k * 2 ^ (s' - s) : ℕ), by rw [h]; push_cast; ring⟩
    · exact ⟨-(k * 2 ^ (s' - s) : ℕ), by rw [h]; push_cast; ring⟩

/-- **No magnitude is nearer**, with either sign; of two the even one is taken. -/
theorem nearest (h : RoundsTo q m) {y : ℚ} (hy : |y| = unitsOf m') :
    |(unitsOf m : ℚ) - q| ≤ |y - q| ∧
      (|y - q| = |(unitsOf m : ℚ) - q| → y = unitsOf m ∨ m % 2 = 0) := by
  obtain ⟨s, k, rfl, hlt, hge, hk⟩ := h
  obtain ⟨hk2, hk1⟩ := halfEven_bounds hlt hge hk
  have heven : (s * fractionSize + k) % 2 = k % 2 := by
    rw [Nat.add_mod, Nat.mul_mod, fractionSize_even]
    simp
  have hgrid : (∃ n : ℤ, y = n * 2 ^ s) ∨ ∃ n : ℤ, y < n * 2 ^ s ∧ n * 2 ^ s ≤ q := by
    refine (grid_or_lt s hy).imp_right fun ⟨hs, hlt⟩ => ⟨fractionSize, ?_⟩
    exact_mod_cast And.intro hlt (hge.resolve_left hs.ne')
  rw [unitsOf_parts hk2 hk1, heven]
  push_cast
  exact hk.nearest_mul (by positivity) hgrid

end RoundsTo

/-! ## Sign and magnitude -/

section
variable {negative : Bool} {m : ℕ}

theorem toNat_bits_ofMagnitude (h : m < signBit) :
    (ofMagnitude negative m).bits.toNat = if negative then signBit + m else m := by
  unfold signBit at *
  unfold ofMagnitude signBit
  rw [UInt64.toNat_ofNat']
  split <;> omega

theorem magnitude_ofMagnitude (h : m < signBit) : (ofMagnitude negative m).magnitude = m := by
  rw [magnitude, toNat_bits_ofMagnitude h]
  split
  · rw [Nat.add_mod_left, Nat.mod_eq_of_lt h]
  · exact Nat.mod_eq_of_lt h

theorem isNegative_ofMagnitude (h : m < signBit) : (ofMagnitude negative m).isNegative = negative := by
  rw [isNegative, toNat_bits_ofMagnitude h]
  cases negative <;> simp [h]

theorem infinityMagnitude_lt : infinityMagnitude < signBit := by norm_num [infinityMagnitude, signBit]

theorem nearestMagnitude_le (num den : ℕ) : nearestMagnitude num den ≤ infinityMagnitude :=
  Nat.min_le_right ..

theorem magnitude_nearest (num den : ℕ) :
    (nearest negative num den).magnitude = nearestMagnitude num den :=
  magnitude_ofMagnitude ((nearestMagnitude_le num den).trans_lt infinityMagnitude_lt)

theorem isNegative_nearest (num den : ℕ) : (nearest negative num den).isNegative = negative :=
  isNegative_ofMagnitude ((nearestMagnitude_le num den).trans_lt infinityMagnitude_lt)

theorem isNaN_nearest (num den : ℕ) : (nearest negative num den).isNaN = false := by
  rw [isNaN, magnitude_nearest]
  exact decide_eq_false (Nat.not_lt.2 (nearestMagnitude_le num den))

end

theorem nearestMagnitude_mono {num den num' den' : ℕ} (hden : 0 < den) (hden' : 0 < den')
    (h : (num : ℚ) / den ≤ num' / den') : nearestMagnitude num den ≤ nearestMagnitude num' den' := by
  obtain ⟨m, hm, hmin⟩ := roundsTo_nearestMagnitude num den hden
  obtain ⟨m', hm', hmin'⟩ := roundsTo_nearestMagnitude num' den' hden'
  rw [hmin, hmin']
  exact min_le_min_right _ (hm.mono h hm')

/-- A ratio that is the units of a magnitude is rounded to it. -/
theorem nearestMagnitude_of_eq {num den m : ℕ} (hden : 0 < den) (hm : m ≤ infinityMagnitude)
    (h : num = unitsOf m * den) : nearestMagnitude num den = m := by
  obtain ⟨m', hm', hmin⟩ := roundsTo_nearestMagnitude num den hden
  have hq : (num : ℚ) / den = unitsOf m := by
    rw [h, Nat.cast_mul, mul_div_cancel_right₀]
    exact_mod_cast hden.ne'
  rw [hq] at hm'
  rw [hmin, ← (RoundsTo.exact m).unique hm', min_eq_left hm]

/-! ## Values -/

/-- The rational number that a finite double stands for. -/
def value (x : Binary64) : ℚ := x.units / unitsPerOne

/-- `x` is the double nearest to `q`, the one with an even magnitude of two. -/
structure IsNearest (x : Binary64) (q : ℚ) : Prop where
  finite : x.isFinite
  nearest : ∀ y : Binary64, y.isFinite → |x.value - q| ≤ |y.value - q|
  even : ∀ y : Binary64, y.isFinite → |y.value - q| = |x.value - q| → y.value = x.value ∨
    x.magnitude % 2 = 0

theorem abs_units (x : Binary64) : |(x.units : ℚ)| = unitsOf x.magnitude := by
  unfold units absUnits
  split
  · push_cast
    rw [abs_neg, abs_of_nonneg (by positivity)]
  · push_cast
    exact abs_of_nonneg (by positivity)

/-- **Rounding to a magnitude is rounding to a double**, where the magnitude is finite. -/
theorem RoundsTo.isNearest {x : Binary64} {q : ℚ} (hx : x.isFinite)
    (h : RoundsTo (q * unitsPerOne) x.magnitude) :
    IsNearest x (if x.isNegative then -q else q) := by
  have hU : (0 : ℚ) < unitsPerOne := by exact_mod_cast unitsPerOne_pos
  set σ : ℚ := if x.isNegative then -1 else 1 with hσ
  have habs : |σ| = 1 := by rw [hσ]; split <;> norm_num
  have hsq : σ * σ = 1 := by rw [hσ]; split <;> norm_num
  have hq : (if x.isNegative then -q else q) = σ * q := by rw [hσ]; split <;> ring
  have hxu : (x.units : ℚ) = σ * unitsOf x.magnitude := by
    rw [hσ, units, absUnits]
    split <;> push_cast <;> ring
  -- Distances are those of the units, turned to the positive side.
  have hdist (y : Binary64) : |y.value - σ * q| = |σ * y.units - q * unitsPerOne| / unitsPerOne := by
    have hturn : y.value - σ * q = σ * (σ * y.units - q * unitsPerOne) / unitsPerOne := by
      unfold value
      field_simp
      linear_combination (-(y.units : ℚ)) * hsq
    rw [hturn, abs_div, abs_mul, habs, one_mul, abs_of_pos hU]
  have hself : σ * x.units = unitsOf x.magnitude := by rw [hxu, ← mul_assoc, hsq, one_mul]
  have hother (y : Binary64) : |σ * (y.units : ℚ)| = unitsOf y.magnitude := by
    rw [abs_mul, habs, one_mul, abs_units]
  rw [hq]
  refine ⟨hx, fun y _ => ?_, fun y _ htie => ?_⟩
  · rw [hdist, hdist, hself]
    exact div_le_div_of_nonneg_right (h.nearest (hother y)).1 hU.le
  · rw [hdist, hdist, hself] at htie
    refine ((h.nearest (hother y)).2 (by field_simp at htie; exact htie)).imp_left fun heq => ?_
    unfold value
    rw [hxu, ← heq, ← mul_assoc, hsq, one_mul]

/-- **`nearest` is the nearest double**, where it is finite. -/
theorem isNearest_nearest {negative : Bool} {num den : ℕ} (hden : 0 < den)
    (h : (nearest negative num den).isFinite) :
    IsNearest (nearest negative num den)
      (if negative then -(num / den / unitsPerOne : ℚ) else num / den / unitsPerOne) := by
  obtain ⟨m, hm, hmin⟩ := roundsTo_nearestMagnitude num den hden
  have hU : (unitsPerOne : ℚ) ≠ 0 := by exact_mod_cast unitsPerOne_pos.ne'
  have hlt : nearestMagnitude num den < infinityMagnitude := by
    simpa [isFinite, magnitude_nearest] using h
  have hm' : (nearest negative num den).magnitude = m := by
    rw [magnitude_nearest, hmin]
    omega
  have hnear := RoundsTo.isNearest (q := num / den / unitsPerOne) h
    (by rwa [div_mul_cancel₀ _ hU, hm'])
  rwa [isNegative_nearest] at hnear

/-! ## Equal doubles -/

/-- Doubles that compare equal are one but for the sign of a zero. -/
theorem eq_iff {x y : Binary64} : x.eq y ↔ x.isNaN = false ∧ y.isNaN = false ∧ x.ordinal = y.ordinal := by
  simp [eq, ordered, and_assoc]

theorem natAbs_ordinal (x : Binary64) : x.ordinal.natAbs = x.magnitude := by
  unfold ordinal
  split <;> simp

theorem units_eq_ordinal (x : Binary64) :
    x.units = if x.ordinal < 0 then -(unitsOf x.ordinal.natAbs : ℤ) else unitsOf x.ordinal.natAbs := by
  rw [natAbs_ordinal, units, absUnits, ordinal]
  cases x.isNegative with
  | false => simp
  | true =>
    rcases Nat.eq_zero_or_pos x.magnitude with h | h
    · simp [h, unitsOf, fractionSize]
    · simp [h]

theorem IsNearest.congr {x y : Binary64} {q : ℚ} (hxy : x.eq y) (h : IsNearest y q) : IsNearest x q := by
  obtain ⟨-, -, hord⟩ := eq_iff.1 hxy
  have hmag : x.magnitude = y.magnitude := by rw [← natAbs_ordinal, hord, natAbs_ordinal]
  have hval : x.value = y.value := by rw [value, value, units_eq_ordinal, hord, ← units_eq_ordinal]
  refine ⟨?_, ?_, ?_⟩
  · simpa [isFinite, hmag] using h.finite
  · rw [hval]
    exact h.nearest
  · rw [hval, hmag]
    exact h.even

/-! ## Integers -/

theorem ordinal_ofInt (n : ℤ) : (ofInt n).ordinal =
    if n < 0 then -(nearestMagnitude (n.natAbs * unitsPerOne) 1 : ℤ)
    else nearestMagnitude (n.natAbs * unitsPerOne) 1 := by
  rw [ofInt, ordinal, magnitude_nearest, isNegative_nearest]
  simp

theorem isNaN_ofInt (n : ℤ) : (ofInt n).isNaN = false := isNaN_nearest ..

theorem nearestMagnitude_whole_mono {m n : ℕ} (h : m ≤ n) :
    nearestMagnitude (m * unitsPerOne) 1 ≤ nearestMagnitude (n * unitsPerOne) 1 := by
  refine nearestMagnitude_mono one_pos one_pos ?_
  rw [Nat.cast_one, div_one, div_one]
  exact_mod_cast Nat.mul_le_mul_right _ h

/-- **Widening keeps the order**, though not strictly. -/
theorem ordinal_ofInt_mono {m n : ℤ} (h : m ≤ n) : (ofInt m).ordinal ≤ (ofInt n).ordinal := by
  rw [ordinal_ofInt, ordinal_ofInt]
  split <;> split
  · have := nearestMagnitude_whole_mono (show n.natAbs ≤ m.natAbs by omega)
    omega
  · omega
  · omega
  · have := nearestMagnitude_whole_mono (show m.natAbs ≤ n.natAbs by omega)
    omega

theorem isFinite_ofInt64 (n : Int64) : (ofInt64 n).isFinite := by
  have hlow := n.le_toInt
  have hhigh := n.toInt_lt
  -- `2 ^ 63` is a double, and no machine integer is above it.
  have hpow : (2 ^ 63 * unitsPerOne : ℕ) = unitsOf (1085 * fractionSize + fractionSize) * 1 := by
    rw [unitsOf_parts (by omega) (.inr le_rfl), fractionSize_eq, unitsPerOne_eq, mul_one, ← pow_add,
      ← pow_add]
  have hmax : 1085 * fractionSize + fractionSize < infinityMagnitude := by
    norm_num [infinityMagnitude, fractionSize]
  have hle : nearestMagnitude (n.toInt.natAbs * unitsPerOne) 1 ≤ 1085 * fractionSize + fractionSize := by
    rw [← nearestMagnitude_of_eq one_pos hmax.le hpow]
    exact nearestMagnitude_whole_mono (by omega)
  unfold ofInt64 ofInt isFinite
  rw [magnitude_nearest]
  exact decide_eq_true (hle.trans_lt hmax)

theorem isNearest_ofInt64 (n : Int64) : IsNearest (ofInt64 n) n.toInt := by
  have hU : (unitsPerOne : ℚ) ≠ 0 := by exact_mod_cast unitsPerOne_pos.ne'
  have hnear := isNearest_nearest one_pos (isFinite_ofInt64 n)
  have hvalue : ((n.toInt.natAbs * unitsPerOne : ℕ) : ℚ) / (1 : ℕ) / unitsPerOne = |(n.toInt : ℚ)| := by
    rw [Nat.cast_one, div_one, Nat.cast_mul, mul_div_cancel_right₀ _ hU, Nat.cast_natAbs]
    norm_cast
  rw [hvalue] at hnear
  have hsign : (if decide (n.toInt < 0) then -|(n.toInt : ℚ)| else |(n.toInt : ℚ)|) = n.toInt := by
    rcases lt_or_ge n.toInt 0 with h | h
    · have h' : (n.toInt : ℚ) < 0 := by exact_mod_cast h
      simp [h, abs_of_neg h']
    · have h' : (0 : ℚ) ≤ n.toInt := by exact_mod_cast h
      simp [not_lt.2 h, abs_of_nonneg h']
  rw [hsign] at hnear
  exact hnear

theorem toInt64?_eq_some_iff {x : Binary64} {n : Int64} :
    x.toInt64? = some n ↔ x.isFinite ∧ x.units = n.toInt * unitsPerOne := by
  have hU : (unitsPerOne : ℤ) ≠ 0 := by exact_mod_cast unitsPerOne_pos.ne'
  unfold toInt64?
  split
  · rename_i hx
    rw [Integer.ofInt?_eq_some_iff, eq_comm, Int.ediv_eq_iff_eq_mul_left hU (Int.dvd_of_emod_eq_zero hx.2)]
    exact ⟨fun h => ⟨hx.1, h⟩, fun h => h.2⟩
  · rename_i hx
    refine ⟨nofun, fun ⟨hfinite, hn⟩ => absurd ⟨hfinite, ?_⟩ hx⟩
    rw [hn, Int.mul_emod_left]

/-- **A whole double is the widening of its integer**, but for the sign of a zero. -/
theorem eq_ofInt64_of_toInt64? {x : Binary64} {n : Int64} (h : x.toInt64? = some n) :
    x.eq (ofInt64 n) := by
  obtain ⟨hfinite, hunits⟩ := toInt64?_eq_some_iff.1 h
  have hmag : x.magnitude < infinityMagnitude := of_decide_eq_true hfinite
  have habs : n.toInt.natAbs * unitsPerOne = unitsOf x.magnitude := by
    have h := congrArg Int.natAbs hunits
    rw [Int.natAbs_mul, Int.natAbs_natCast] at h
    rw [← h, units, absUnits]
    split <;> simp
  have hnearest : nearestMagnitude (n.toInt.natAbs * unitsPerOne) 1 = x.magnitude :=
    nearestMagnitude_of_eq one_pos hmag.le (by rw [habs, mul_one])
  refine eq_iff.2 ⟨decide_eq_false (by omega), isNaN_ofInt _, ?_⟩
  have hU : (0 : ℤ) < unitsPerOne := by exact_mod_cast unitsPerOne_pos
  have hsigned : n.toInt = if x.isNegative then -(n.toInt.natAbs : ℤ) else n.toInt.natAbs := by
    rw [units, absUnits, ← habs] at hunits
    refine mul_right_cancel₀ hU.ne' (hunits.symm.trans ?_)
    split <;> push_cast <;> ring
  rw [ofInt64, ordinal_ofInt, hnearest, ordinal]
  rcases eq_or_ne n.toInt 0 with hzero | hzero
  · -- Only here can the signs differ.
    have hmag0 : x.magnitude = 0 := by
      rw [← hnearest, hzero]
      exact nearestMagnitude_of_eq one_pos (Nat.zero_le _) (by simp [unitsOf, fractionSize])
    simp [hmag0]
  · have hneg : x.isNegative = decide (n.toInt < 0) := by
      cases hx : x.isNegative with
      | true =>
        rw [hx, if_pos rfl] at hsigned
        exact (decide_eq_true (by omega)).symm
      | false =>
        rw [hx, if_neg (by decide)] at hsigned
        exact (decide_eq_false (by omega)).symm
    simp only [hneg, decide_eq_true_eq]

end LuaKernel.Binary64
