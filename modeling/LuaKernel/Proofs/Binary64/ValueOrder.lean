import Mathlib
import LuaKernel.Proofs.Binary64.Overflow

/-!
# The order of doubles by value

The patterns of finite doubles are in the order of the rationals they stand for. So a double that is nearest to
a rational is the only one, and integers up to `2 ^ 53` are doubles themselves.

* `le_iff_value`, `eq_iff_value`: finite doubles compare by value.
* `IsNearest.unique`: two nearest doubles would have one between them.
* `value_ofInt64`: integers up to `2 ^ 53` keep their values when they are widened. `IsNearest.le_natAbs`:
  integers that share a nearest double are not below that.
-/

namespace LuaKernel.Binary64

variable {x y : Binary64}

/-! ## Order by value -/

theorem unitsOf_strictMono : StrictMono unitsOf := by
  intro m m' hlt
  by_contra hge
  have hle : (unitsOf m' : ℚ) ≤ unitsOf m := by exact_mod_cast not_lt.1 hge
  exact hlt.not_ge ((RoundsTo.exact m').mono hle (RoundsTo.exact m))

theorem units_lt_of_ordinal_lt (h : x.ordinal < y.ordinal) : x.units < y.units := by
  rw [units_eq_ordinal, units_eq_ordinal]
  split <;> split
  · have := unitsOf_strictMono (show y.ordinal.natAbs < x.ordinal.natAbs by omega)
    omega
  · -- Across zero the negative one is not zero.
    have := unitsOf_strictMono (show 0 < x.ordinal.natAbs by omega)
    omega
  · omega
  · have := unitsOf_strictMono (show x.ordinal.natAbs < y.ordinal.natAbs by omega)
    omega

theorem ordinal_le_iff_value : x.ordinal ≤ y.ordinal ↔ x.value ≤ y.value := by
  have hU : (0 : ℚ) < unitsPerOne := by exact_mod_cast unitsPerOne_pos
  rw [value, value, div_le_div_iff_of_pos_right hU, Int.cast_le]
  constructor
  · intro h
    rcases h.eq_or_lt with heq | hlt
    · rw [units_eq_ordinal x, heq, ← units_eq_ordinal y]
    · exact (units_lt_of_ordinal_lt hlt).le
  · intro h
    by_contra hgt
    exact (units_lt_of_ordinal_lt (not_le.1 hgt)).not_ge h

theorem ordinal_lt_iff_value : x.ordinal < y.ordinal ↔ x.value < y.value :=
  lt_iff_lt_of_le_iff_le ordinal_le_iff_value

theorem le_iff : x.le y ↔ x.isNaN = false ∧ y.isNaN = false ∧ x.ordinal ≤ y.ordinal := by
  simp [le, ordered, and_assoc]

theorem isNaN_of_isFinite (h : x.isFinite) : x.isNaN = false :=
  decide_eq_false (of_decide_eq_true h).not_gt

/-- **Finite doubles compare by value.** -/
theorem le_iff_value (hx : x.isFinite) (hy : y.isFinite) : x.le y ↔ x.value ≤ y.value := by
  rw [le_iff, isNaN_of_isFinite hx, isNaN_of_isFinite hy, ordinal_le_iff_value]
  simp

theorem eq_iff_value (hx : x.isFinite) (hy : y.isFinite) : x.eq y ↔ x.value = y.value := by
  have hiff : x.ordinal = y.ordinal ↔ x.value = y.value := by
    rw [le_antisymm_iff, le_antisymm_iff, ordinal_le_iff_value, ordinal_le_iff_value]
  rw [eq_iff, isNaN_of_isFinite hx, isNaN_of_isFinite hy, hiff]
  simp

/-! ## The nearest double is one -/

theorem isFinite_ofMagnitude {negative : Bool} {m : ℕ} (hm : m < infinityMagnitude) :
    (ofMagnitude negative m).isFinite := by
  rw [isFinite, magnitude_ofMagnitude (hm.trans infinityMagnitude_lt)]
  exact decide_eq_true hm

theorem exists_ordinal_eq {i : ℤ} (hi : i.natAbs < infinityMagnitude) :
    ∃ z : Binary64, z.isFinite ∧ z.ordinal = i := by
  have hsign := hi.trans infinityMagnitude_lt
  refine ⟨ofMagnitude (i < 0) i.natAbs, isFinite_ofMagnitude hi, ?_⟩
  rw [ordinal, magnitude_ofMagnitude hsign, isNegative_ofMagnitude hsign]
  split <;> rename_i hneg <;> rw [decide_eq_true_iff] at hneg <;> omega

/-- **No two doubles are nearest.** They would be as far on either side, and even, so that there is one between
them. -/
theorem IsNearest.unique {q : ℚ} (hx : IsNearest x q) (hy : IsNearest y q) : x.value = y.value := by
  by_contra hne
  wlog hlt : x.value < y.value generalizing x y
  · exact this hy hx (Ne.symm hne) ((not_lt.1 hlt).lt_of_ne (Ne.symm hne))
  have hdist : |y.value - q| = |x.value - q| :=
    le_antisymm (hy.nearest x hx.finite) (hx.nearest y hy.finite)
  have hxeven := (hx.even y hy.finite hdist).resolve_left (Ne.symm hne)
  have hyeven := (hy.even x hx.finite hdist.symm).resolve_left hne
  have hxmax : x.magnitude < infinityMagnitude := of_decide_eq_true hx.finite
  have hymax : y.magnitude < infinityMagnitude := of_decide_eq_true hy.finite
  have hord := ordinal_lt_iff_value.2 hlt
  rw [← natAbs_ordinal] at hxeven hyeven hxmax hymax
  obtain ⟨z, hz, hzord⟩ := exists_ordinal_eq (i := x.ordinal + 1) (by omega)
  have hxz : x.value < z.value := ordinal_lt_iff_value.1 (by omega)
  have hzy : z.value < y.value := ordinal_lt_iff_value.1 (by omega)
  have hmiddle : y.value - q = q - x.value := by
    rcases abs_eq_abs.1 hdist with h | h
    · linarith
    · linarith
  have hcloser : |z.value - q| < |x.value - q| := by
    rw [abs_of_neg (by linarith : x.value - q < 0), abs_lt]
    constructor <;> linarith
  exact hcloser.not_ge (hx.nearest z hz)

/-! ## Integers that are doubles -/

/-- Integers up to `2 ^ 53` are doubles. -/
theorem exists_value_eq {n : ℤ} (hn : n.natAbs ≤ 2 ^ 53) : ∃ x : Binary64, x.isFinite ∧ x.value = n := by
  obtain ⟨m, hm, hunits⟩ : ∃ m < infinityMagnitude, unitsOf m = n.natAbs * unitsPerOne := by
    rcases hn.lt_or_eq with hlt | heq
    · simpa using exists_unitsOf_eq hlt (Nat.zero_le 971)
    · rw [heq]
      simpa using exists_unitsOf_eq (n := 1) (j := 53) (by norm_num) (by norm_num)
  have hvalue : (ofMagnitude (n < 0) m).units = n * unitsPerOne := by
    rw [units, absUnits_ofMagnitude hm.le, isNegative_ofMagnitude (hm.trans infinityMagnitude_lt), hunits,
      Nat.cast_mul]
    rcases lt_or_ge n 0 with hneg | hpos
    · rw [if_pos (decide_eq_true hneg), Int.ofNat_natAbs_of_nonpos hneg.le]
      ring
    · rw [if_neg (by simpa using hpos), Int.natAbs_of_nonneg hpos]
  have hU : (unitsPerOne : ℚ) ≠ 0 := by exact_mod_cast unitsPerOne_pos.ne'
  refine ⟨ofMagnitude (n < 0) m, isFinite_ofMagnitude hm, ?_⟩
  rw [value, div_eq_iff hU, hvalue]
  push_cast
  rfl

/-- The nearest double to a double is that double. -/
theorem IsNearest.value_eq {q : ℚ} (h : IsNearest y q) (hx : x.isFinite) (hq : x.value = q) : y.value = q := by
  have hle := h.nearest x hx
  rw [hq, sub_self, abs_zero] at hle
  exact sub_eq_zero.1 (abs_nonpos_iff.1 hle)

/-- **Integers up to `2 ^ 53` keep their values.** -/
theorem value_ofInt64 {n : Int64} (hn : n.toInt.natAbs ≤ 2 ^ 53) : (ofInt64 n).value = n.toInt := by
  obtain ⟨x, hx, hvalue⟩ := exists_value_eq hn
  exact (isNearest_ofInt64 n).value_eq hx hvalue

/-- **Different integers that share a nearest double** are not below `2 ^ 53`. Otherwise the double is the
smaller one, and the integer up to `2 ^ 53` that is nearest to the other one is nearer. -/
theorem IsNearest.le_natAbs {m n : ℤ} (hm : IsNearest y m) (hn : IsNearest y n) (hne : m ≠ n) :
    2 ^ 53 ≤ m.natAbs := by
  by_contra hlt
  obtain ⟨x, hx, hxm⟩ := exists_value_eq (n := m) (by omega)
  have hym := hm.value_eq hx hxm
  obtain ⟨k, hk, hcloser⟩ : ∃ k : ℤ, k.natAbs ≤ 2 ^ 53 ∧ |k - n| < |m - n| := by
    refine ⟨max (-2 ^ 53) (min n (2 ^ 53)), by omega, ?_⟩
    rw [Int.abs_eq_natAbs, Int.abs_eq_natAbs]
    omega
  obtain ⟨z, hz, hzk⟩ := exists_value_eq hk
  have hle := hn.nearest z hz
  rw [hym, hzk] at hle
  exact hcloser.not_ge (by exact_mod_cast hle)

end LuaKernel.Binary64
