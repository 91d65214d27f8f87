import Mathlib
import LuaKernel.Binary64.Nearest

/-!
# Rounding to a whole number, a half to even

`HalfEven k q`: the whole number `k` is nearest to `q`, and even if it is half a unit away. The rounded
quotient is such a number (`halfEven_roundDiv`), and there is one only (`HalfEven.unique`).

Binary and decimal rounding both scale a ratio and round the result to a whole number. What that says of
the ratio itself is `HalfEven.nearest`: multiples of the scale are no nearer than the rounded one, and
neither are numbers below a multiple that is not above the ratio.
-/

namespace LuaKernel

/-- The whole number nearest to a ratio, the even one of two. -/
structure HalfEven (k : ℕ) (q : ℚ) : Prop where
  close : |(k : ℚ) - q| ≤ 1 / 2
  even : |(k : ℚ) - q| = 1 / 2 → k % 2 = 0

theorem roundDiv_cases (num den : ℕ) :
    (2 * (num % den) < den ∧ roundDiv num den = num / den) ∨
      (den < 2 * (num % den) ∧ roundDiv num den = num / den + 1) ∨
      (2 * (num % den) = den ∧ roundDiv num den = num / den + num / den % 2) := by
  unfold roundDiv
  simp only
  split
  · exact .inl ⟨‹_›, rfl⟩
  split
  · exact .inr (.inl ⟨‹_›, rfl⟩)
  · exact .inr (.inr ⟨by omega, rfl⟩)

/-- A ratio is its quotient and a proper fraction. -/
theorem div_eq_quotient_add (num den : ℕ) (hden : 0 < den) :
    (num : ℚ) / den = (num / den : ℕ) + (num % den : ℕ) / (den : ℚ) := by
  have hd : (den : ℚ) ≠ 0 := by positivity
  have hsum : (num : ℚ) = den * (num / den : ℕ) + (num % den : ℕ) := by
    exact_mod_cast (Nat.div_add_mod num den).symm
  field_simp
  exact hsum

theorem halfEven_roundDiv (num den : ℕ) (hden : 0 < den) :
    HalfEven (roundDiv num den) ((num : ℚ) / den) := by
  have hd : (0 : ℚ) < den := by exact_mod_cast hden
  rw [div_eq_quotient_add num den hden]
  generalize hr : ((num % den : ℕ) : ℚ) / den = r
  have hr0 : 0 ≤ r := by rw [← hr]; positivity
  rcases roundDiv_cases num den with ⟨hlt, hk⟩ | ⟨hgt, hk⟩ | ⟨htie, hk⟩ <;> rw [hk]
  · have hr' : r < 1 / 2 := by
      rw [← hr, div_lt_iff₀ hd]
      have : ((2 * (num % den) : ℕ) : ℚ) < den := by exact_mod_cast hlt
      push_cast at this
      linarith
    have habs : |((num / den : ℕ) : ℚ) - ((num / den : ℕ) + r)| = r := by
      rw [sub_add_cancel_left, abs_neg, abs_of_nonneg hr0]
    exact ⟨by rw [habs]; exact hr'.le, fun h => by rw [habs] at h; exact absurd h hr'.ne⟩
  · have hr' : 1 / 2 < r := by
      rw [← hr, lt_div_iff₀ hd]
      have : (den : ℚ) < ((2 * (num % den) : ℕ) : ℚ) := by exact_mod_cast hgt
      push_cast at this
      linarith
    have hr1 : r < 1 := by
      rw [← hr, div_lt_one hd]
      exact_mod_cast Nat.mod_lt num hden
    have habs : |((num / den + 1 : ℕ) : ℚ) - ((num / den : ℕ) + r)| = 1 - r := by
      rw [Nat.cast_add, Nat.cast_one, add_sub_add_left_eq_sub, abs_of_pos (by linarith)]
    exact ⟨by rw [habs]; linarith, fun h => by rw [habs] at h; linarith⟩
  · have hr' : r = 1 / 2 := by
      rw [← hr, div_eq_iff hd.ne']
      have : ((2 * (num % den) : ℕ) : ℚ) = den := by exact_mod_cast htie
      push_cast at this
      linarith
    refine ⟨?_, fun _ => by omega⟩
    rw [hr', Nat.cast_add, add_sub_add_left_eq_sub]
    rcases Nat.mod_two_eq_zero_or_one (num / den) with h | h <;> rw [h] <;> norm_num [abs_le]

namespace HalfEven

variable {k k' : ℕ} {q q' : ℚ}

theorem mono (hq : q ≤ q') (h : HalfEven k q) (h' : HalfEven k' q') : k ≤ k' := by
  by_contra hlt
  obtain ⟨-, hk⟩ := abs_le.1 h.close
  obtain ⟨hk', -⟩ := abs_le.1 h'.close
  have hstep : (k' : ℚ) + 1 ≤ k := by exact_mod_cast Nat.succ_le_of_lt (Nat.lt_of_not_le hlt)
  -- The two are neighbours, and `q` and `q'` are the middle between them.
  have hnext : (k : ℚ) = k' + 1 := by linarith
  have heven : k % 2 = 0 := h.even (by rw [abs_eq (by norm_num)]; left; linarith)
  have heven' : k' % 2 = 0 := h'.even (by rw [abs_eq (by norm_num)]; right; linarith)
  have : k = k' + 1 := by exact_mod_cast hnext
  omega

theorem unique (h : HalfEven k q) (h' : HalfEven k' q) : k = k' :=
  Nat.le_antisymm (h.mono le_rfl h') (h'.mono le_rfl h)

theorem of_lt (h : |(k : ℚ) - q| < 1 / 2) : HalfEven k q := ⟨h.le, fun h' => absurd h' h.ne⟩

theorem of_eq (h : q = k) : HalfEven k q := of_lt (by rw [h, sub_self, abs_zero]; norm_num)

theorem nearest_int (h : HalfEven k q) (n : ℤ) :
    |(k : ℚ) - q| ≤ |(n : ℚ) - q| ∧ (|(n : ℚ) - q| = |(k : ℚ) - q| → (n : ℚ) = k ∨ k % 2 = 0) := by
  by_cases hn : n = k
  · subst hn
    exact ⟨le_rfl, fun _ => .inl rfl⟩
  have hone : (1 : ℚ) ≤ |(n : ℚ) - k| := by
    exact_mod_cast Int.one_le_abs (sub_ne_zero.2 hn)
  have htriangle : |(n : ℚ) - k| ≤ |(n : ℚ) - q| + |(k : ℚ) - q| := by
    rw [abs_sub_comm (k : ℚ) q]
    exact abs_sub_le _ _ _
  have hclose := h.close
  exact ⟨by linarith, fun htie => .inr (h.even (by linarith))⟩

/-- **Nothing on the grid is nearer**, and nothing below a point of the grid that `q` has reached. -/
theorem nearest (h : HalfEven k q) {y : ℚ}
    (hy : (∃ n : ℤ, y = n) ∨ ∃ n : ℤ, y < n ∧ (n : ℚ) ≤ q) :
    |(k : ℚ) - q| ≤ |y - q| ∧ (|y - q| = |(k : ℚ) - q| → y = k ∨ k % 2 = 0) := by
  rcases hy with ⟨n, rfl⟩ | ⟨n, hyn, hnq⟩
  · exact h.nearest_int n
  · have hn := (h.nearest_int n).1
    rw [abs_of_nonpos (sub_nonpos.2 hnq)] at hn
    rw [abs_of_neg (by linarith : y - q < 0)]
    exact ⟨by linarith, fun htie => by linarith⟩

/-- The same for a ratio that has been scaled by `u`. -/
theorem nearest_mul {u x : ℚ} (hu : 0 < u) (h : HalfEven k (x / u)) {y : ℚ}
    (hy : (∃ n : ℤ, y = n * u) ∨ ∃ n : ℤ, y < n * u ∧ n * u ≤ x) :
    |k * u - x| ≤ |y - x| ∧ (|y - x| = |k * u - x| → y = k * u ∨ k % 2 = 0) := by
  have hscale (a : ℚ) : |a * u - x| = |a - x / u| * u := by
    rw [← abs_of_pos hu, ← abs_mul, abs_of_pos hu, sub_mul, div_mul_cancel₀ _ hu.ne']
  have hdiv : y = y / u * u := (div_mul_cancel₀ _ hu.ne').symm
  have hgrid : (∃ n : ℤ, y / u = n) ∨ ∃ n : ℤ, y / u < n ∧ (n : ℚ) ≤ x / u := by
    rcases hy with ⟨n, hn⟩ | ⟨n, hyn, hnx⟩
    · exact .inl ⟨n, by rw [hn, mul_div_cancel_right₀ _ hu.ne']⟩
    · exact .inr ⟨n, (div_lt_iff₀ hu).2 hyn, (le_div_iff₀ hu).2 hnx⟩
  obtain ⟨hle, htie⟩ := h.nearest hgrid
  rw [hdiv, hscale, hscale]
  refine ⟨mul_le_mul_of_nonneg_right hle hu.le, fun heq => ?_⟩
  rcases htie (mul_right_cancel₀ hu.ne' heq) with hk | hk
  · exact .inl (by rw [hk])
  · exact .inr hk

end HalfEven

end LuaKernel
