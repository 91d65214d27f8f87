import Mathlib
import LuaKernel.Binary64.Text
import LuaKernel.Proofs.Binary64.HalfEven

/-!
# Rounding to significant decimal digits

`Significant.IsNearest s q`: of all decimals with 14 digits, whatever their exponents, `s` is the
nearest to `q`, and has even digits if another is as near. There is one (`isNearest_iff`), and `significant`
finds it in two steps: the decimal exponent of the ratio gives the unit of the last digit
(`decimalExponent_spec`), and the ratio is rounded to a multiple of that unit (`halfEven_roundPlaces`).

Rounding may carry into the next power of ten, which moves the exponent. Rounding the ratio again to the unit
of the exponent it moved to then gives the same decimal (`roundPlaces_significant`).
-/

namespace LuaKernel.Binary64

/-! ## The decimal exponent of a ratio -/

theorem exists_length_toDigits {n : ℕ} (hn : 0 < n) :
    ∃ k, (Nat.toDigits 10 n).length = k + 1 ∧ 10 ^ k ≤ n ∧ n < 10 ^ (k + 1) := by
  have hpos := Nat.length_toDigits_pos (b := 10) (n := n)
  obtain ⟨k, hk⟩ := Nat.exists_eq_succ_of_ne_zero hpos.ne'
  refine ⟨k, hk, ?_, (Nat.length_toDigits_le_iff (by norm_num) (by omega)).1 hk.le⟩
  rcases Nat.eq_zero_or_pos k with rfl | hk0
  · exact hn
  · have := Nat.length_toDigits_le_iff (b := 10) (n := n) (by norm_num) hk0
    omega

section Ratio

variable {num den : ℕ}

theorem decimalExponent_spec (hnum : 0 < num) (hden : 0 < den) :
    (10 : ℚ) ^ decimalExponent num den ≤ num / den ∧
      (num : ℚ) / den < 10 ^ (decimalExponent num den + 1) := by
  have hd : (0 : ℚ) < den := by exact_mod_cast hden
  unfold decimalExponent
  split
  next hle =>
    obtain ⟨k, hk, hlow, hhigh⟩ := exists_length_toDigits (Nat.div_pos hle hden)
    have hexp : ((Nat.toDigits 10 (num / den)).length : ℤ) - 1 = k := by omega
    rw [hexp, zpow_natCast, le_div_iff₀ hd, div_lt_iff₀ hd]
    refine ⟨?_, ?_⟩
    · exact_mod_cast (Nat.le_div_iff_mul_le hden).1 hlow
    · exact_mod_cast (Nat.div_lt_iff_lt_mul hden).1 hhigh
  next hlt =>
    obtain ⟨k, hk, hlow, hhigh⟩ := exists_length_toDigits
      (Nat.div_pos (show num ≤ den - 1 by omega) hnum)
    have hexp : -((Nat.toDigits 10 ((den - 1) / num)).length : ℤ) + 1 = -k := by omega
    rw [hexp, hk, zpow_neg, zpow_neg, zpow_natCast, zpow_natCast, inv_le_iff_one_le_mul₀ (by positivity),
      lt_inv_comm₀ (by positivity) (by positivity), inv_div]
    rw [Nat.le_div_iff_mul_le hnum] at hlow
    rw [Nat.div_lt_iff_lt_mul hnum, mul_comm] at hhigh
    refine ⟨?_, ?_⟩
    · rw [div_mul_eq_mul_div, le_div_iff₀ hd, one_mul]
      exact_mod_cast (by omega : den ≤ num * 10 ^ (k + 1))
    · rw [lt_div_iff₀ (by exact_mod_cast hnum)]
      exact_mod_cast (by omega : 10 ^ k * num < den)

theorem halfEven_roundPlaces (num : ℕ) (hden : 0 < den) (places : ℤ) :
    HalfEven (roundPlaces num den places) (num / den * 10 ^ places) := by
  have hscale : (10 : ℚ) ^ places = 10 ^ places.toNat / 10 ^ (-places).toNat := by
    rw [← zpow_natCast, ← zpow_natCast, ← zpow_sub₀ (by norm_num)]
    congr 1
    omega
  have h := halfEven_roundDiv (num * 10 ^ places.toNat) (den * 10 ^ (-places).toNat) (by positivity)
  rw [hscale, div_mul_div_comm]
  exact_mod_cast h

end Ratio

/-! ## Decimals of 14 digits -/

namespace Significant

/-- What the last digit of a decimal with a given exponent is worth. -/
def unit (e : ℤ) : ℚ := 10 ^ (e - 13)

def value (s : Significant) : ℚ := s.digits * unit s.exponent

/-- The digits are 14 in number. -/
def Normal (s : Significant) : Prop := 10 ^ 13 ≤ s.digits ∧ s.digits < 10 ^ 14

theorem unit_pos (e : ℤ) : 0 < unit e := zpow_pos (by norm_num) _

theorem zpow_eq (e : ℤ) : (10 : ℚ) ^ e = 10 ^ 13 * unit e := by
  rw [unit, ← zpow_natCast, ← zpow_add₀ (by norm_num)]
  congr 1
  simp

theorem unit_succ (e : ℤ) : unit (e + 1) = 10 * unit e := by
  rw [unit, unit, add_sub_right_comm, zpow_add_one₀ (by norm_num), mul_comm]

theorem zpow_succ_eq (e : ℤ) : (10 : ℚ) ^ (e + 1) = 10 ^ 14 * unit e := by
  rw [zpow_eq, unit_succ]
  ring

theorem mul_zpow_eq_div_unit (q : ℚ) (e : ℤ) : q * 10 ^ (13 - e) = q / unit e := by
  rw [unit, div_eq_mul_inv, ← zpow_neg, neg_sub]

/-- A decimal is a multiple of the unit of every exponent that is not above its own. -/
theorem value_eq_mul_unit {s : Significant} {e : ℤ} (he : e ≤ s.exponent) :
    ∃ n : ℕ, s.value = n * unit e := by
  obtain ⟨k, hk⟩ := Int.eq_ofNat_of_zero_le (sub_nonneg.2 he)
  refine ⟨s.digits * 10 ^ k, ?_⟩
  have hunit : unit s.exponent = 10 ^ k * unit e := by
    rw [unit, unit, ← zpow_natCast, ← zpow_add₀ (by norm_num)]
    congr 1
    omega
  rw [value, hunit]
  push_cast
  ring

namespace Normal

variable {s t : Significant}

theorem le_value (h : s.Normal) : 10 ^ s.exponent ≤ s.value := by
  rw [zpow_eq, value]
  exact mul_le_mul_of_nonneg_right (by exact_mod_cast h.1) (unit_pos _).le

theorem value_lt (h : s.Normal) : s.value < 10 ^ (s.exponent + 1) := by
  rw [zpow_succ_eq, value]
  exact mul_lt_mul_of_pos_right (by exact_mod_cast h.2) (unit_pos _)

theorem value_lt_of_exponent_lt (h : s.Normal) {e : ℤ} (he : s.exponent < e) : s.value < 10 ^ e :=
  h.value_lt.trans_le (zpow_le_zpow_right₀ (by norm_num) he)

theorem exponent_le (hs : s.Normal) (ht : t.Normal) (h : s.value ≤ t.value) : s.exponent ≤ t.exponent := by
  by_contra hlt
  have := ht.value_lt_of_exponent_lt (lt_of_not_ge hlt)
  exact absurd (hs.le_value.trans h) (not_le.2 this)

theorem value_inj (hs : s.Normal) (ht : t.Normal) (h : s.value = t.value) : s = t := by
  obtain ⟨d, e⟩ := s
  obtain ⟨d', e'⟩ := t
  obtain rfl : e = e' := le_antisymm (hs.exponent_le ht h.le) (ht.exponent_le hs h.ge)
  have hd : (d : ℚ) = d' := mul_right_cancel₀ (unit_pos e).ne' h
  rw [Nat.cast_inj.1 hd]

/-- A decimal is a multiple of the unit of an exponent, or below the power of ten. -/
theorem grid_or_lt (h : s.Normal) (e : ℤ) : (∃ n : ℕ, s.value = n * unit e) ∨ s.value < 10 ^ e := by
  rcases le_or_gt e s.exponent with he | he
  · exact .inl (value_eq_mul_unit he)
  · exact .inr (h.value_lt_of_exponent_lt he)

/-- Between two decimals with even digits there is a third: the one next to the smaller. -/
theorem exists_between (hs : s.Normal) (ht : t.Normal) (hlt : s.value < t.value) (heven : s.digits % 2 = 0)
    (heven' : t.digits % 2 = 0) : ∃ u : Significant, u.Normal ∧ s.value < u.value ∧ u.value < t.value := by
  have hpos := unit_pos s.exponent
  let u : Significant := ⟨s.digits + 1, s.exponent⟩
  have hvalue : u.value = (s.digits + 1) * unit s.exponent := by
    simp only [value, u]
    push_cast
    rfl
  have hu : u.Normal := by
    obtain ⟨hlow, hhigh⟩ := hs
    simp only [Normal, u] at hlow hhigh ⊢
    omega
  have hsu : s.value < u.value := by
    rw [hvalue, value]
    exact mul_lt_mul_of_pos_right (lt_add_one _) hpos
  have hut : u.value ≤ t.value := by
    obtain ⟨n, hn⟩ := value_eq_mul_unit (hs.exponent_le ht hlt.le)
    rw [hn, value, mul_lt_mul_iff_left₀ hpos] at hlt
    rw [hn, hvalue]
    exact mul_le_mul_of_nonneg_right (by exact_mod_cast hlt) hpos.le
  have hne : u.value ≠ t.value := by
    intro h
    have : s.digits + 1 = t.digits := congrArg digits (hu.value_inj ht h)
    omega
  exact ⟨u, hu, hsu, lt_of_le_of_ne hut hne⟩

end Normal

/-- `s` is `q` rounded to 14 digits. -/
structure IsNearest (s : Significant) (q : ℚ) : Prop where
  normal : s.Normal
  nearest {t : Significant} : t.Normal → |s.value - q| ≤ |t.value - q|
  even {t : Significant} : t.Normal → |t.value - q| = |s.value - q| → t = s ∨ s.digits % 2 = 0

namespace IsNearest

variable {s t : Significant} {q : ℚ}

/-- Two nearest decimals would both be even, and what lies between them is nearer. -/
theorem not_lt (hs : s.IsNearest q) (ht : t.IsNearest q) : ¬s.value < t.value := by
  intro hlt
  have hne : s ≠ t := by
    rintro rfl
    exact lt_irrefl _ hlt
  have hdist : |s.value - q| = |t.value - q| := le_antisymm (hs.nearest ht.normal) (ht.nearest hs.normal)
  have heven : s.digits % 2 = 0 := (hs.even ht.normal hdist.symm).resolve_left hne.symm
  have heven' : t.digits % 2 = 0 := (ht.even hs.normal hdist).resolve_left hne
  obtain ⟨u, hu, hsu, hut⟩ := hs.normal.exists_between ht.normal hlt heven heven'
  have hmid : q - s.value = t.value - q := by
    rcases abs_eq_abs.1 hdist with h | h <;> linarith
  have hnearer : |u.value - q| < |t.value - q| := by
    rw [abs_of_pos (by linarith : 0 < t.value - q), abs_lt]
    constructor <;> linarith
  exact absurd (ht.nearest hu) (not_le.2 hnearer)

theorem unique (hs : s.IsNearest q) (ht : t.IsNearest q) : s = t :=
  hs.normal.value_inj ht.normal (le_antisymm (le_of_not_gt (ht.not_lt hs)) (le_of_not_gt (hs.not_lt ht)))

end IsNearest

end Significant

/-! ## Rounding a ratio -/

section Rounding

open Significant

variable {num den : ℕ}

/-- The digits that the exponent before rounding leaves: too many by one where rounding carries. -/
theorem significant_cases (hnum : 0 < num) (hden : 0 < den) :
    ∃ (e : ℤ) (d : ℕ), (10 : ℚ) ^ e ≤ num / den ∧ HalfEven d (num / den / unit e) ∧
      10 ^ 13 ≤ d ∧
      ((d < 10 ^ 14 ∧ significant num den = ⟨d, e⟩) ∨
        (d = 10 ^ 14 ∧ significant num den = ⟨10 ^ 13, e + 1⟩)) := by
  obtain ⟨hlow, hhigh⟩ := decimalExponent_spec hnum hden
  have hround := halfEven_roundPlaces num hden (13 - decimalExponent num den)
  rw [mul_zpow_eq_div_unit] at hround
  have hplaces : (precision : ℤ) - 1 = 13 := rfl
  unfold significant
  simp only [hplaces]
  generalize decimalExponent num den = e at hlow hhigh hround ⊢
  generalize roundPlaces num den (13 - e) = d at hround ⊢
  have hu := unit_pos e
  refine ⟨e, d, hlow, hround, ?_, ?_⟩
  · rw [zpow_eq, ← le_div_iff₀ hu] at hlow
    exact HalfEven.mono hlow (.of_eq (by push_cast; rfl)) hround
  · rw [zpow_succ_eq, ← div_lt_iff₀ hu] at hhigh
    have hd : d ≤ 10 ^ 14 := HalfEven.mono hhigh.le hround (.of_eq (by push_cast; rfl))
    split
    · exact .inl ⟨‹_›, rfl⟩
    · exact .inr ⟨le_antisymm hd (Nat.not_lt.1 ‹_›), rfl⟩

theorem isNearest_significant (hnum : 0 < num) (hden : 0 < den) :
    (significant num den).IsNearest (num / den) := by
  obtain ⟨e, d, hlow, hround, hd, hcases⟩ := significant_cases hnum hden
  have hu := unit_pos e
  have hnormal : (significant num den).Normal := by
    rcases hcases with ⟨hlt, hs⟩ | ⟨-, hs⟩ <;> rw [hs]
    · exact ⟨hd, hlt⟩
    · exact ⟨le_rfl, by norm_num⟩
  have hvalue : (significant num den).value = d * unit e := by
    rcases hcases with ⟨-, hs⟩ | ⟨rfl, hs⟩ <;> rw [hs, Significant.value]
    rw [unit_succ]
    push_cast
    ring
  have heven : d % 2 = 0 → (significant num den).digits % 2 = 0 := by
    rcases hcases with ⟨-, hs⟩ | ⟨-, hs⟩ <;> rw [hs]
    · exact id
    · exact fun _ => by norm_num
  have hgrid {t : Significant} (ht : t.Normal) :
      (∃ n : ℤ, t.value = n * unit e) ∨ ∃ n : ℤ, t.value < n * unit e ∧ n * unit e ≤ num / den := by
    rcases ht.grid_or_lt e with ⟨n, hn⟩ | hlt
    · exact .inl ⟨n, by exact_mod_cast hn⟩
    · have hpower : ((10 ^ 13 : ℤ) : ℚ) * unit e = 10 ^ e := by
        rw [zpow_eq, Int.cast_pow]
        rfl
      exact .inr ⟨10 ^ 13, hpower ▸ hlt, hpower ▸ hlow⟩
  refine ⟨hnormal, fun ht => ?_, fun ht htie => ?_⟩
  · rw [hvalue]
    exact (hround.nearest_mul hu (hgrid ht)).1
  · rw [hvalue] at htie
    rcases (hround.nearest_mul hu (hgrid ht)).2 htie with h | h
    · exact .inl (ht.value_inj hnormal (h.trans hvalue.symm))
    · exact .inr (heven h)

/-- **The decimal nearest to a ratio is the one found.** -/
theorem isNearest_iff (hnum : 0 < num) (hden : 0 < den) {s : Significant} :
    s.IsNearest (num / den) ↔ s = significant num den := by
  constructor
  · exact fun h => h.unique (isNearest_significant hnum hden)
  · rintro rfl
    exact isNearest_significant hnum hden

/-- **Rounding again at the exponent that rounding gave changes nothing.** After a carry the ratio is at most
half an old unit below the power of ten, a twentieth of the new one. -/
theorem roundPlaces_significant (hnum : 0 < num) (hden : 0 < den) :
    roundPlaces num den (13 - (significant num den).exponent) = (significant num den).digits := by
  obtain ⟨e, d, -, hround, -, hcases⟩ := significant_cases hnum hden
  apply HalfEven.unique (halfEven_roundPlaces num hden _)
  rw [mul_zpow_eq_div_unit]
  rcases hcases with ⟨-, hs⟩ | ⟨rfl, hs⟩ <;> rw [hs]
  · exact hround
  · have hclose := abs_le.1 hround.close
    rw [unit_succ, mul_comm, ← div_div]
    apply HalfEven.of_lt
    rw [abs_lt]
    norm_num at hclose ⊢
    constructor <;> linarith

end Rounding

end LuaKernel.Binary64
