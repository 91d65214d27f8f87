import Mathlib
import LuaKernel.Proofs.Numeral.Digits

/-!
# Digits gathered in a machine integer

An integer numeral is read in one pass that keeps a machine integer and nothing else. What the pass ends
with is said here by the number that the digits spell, which no machine integer need hold:

* `lowerDigit?_eq`, `foldlM_lowerDigit?`: one checked digit, and a run of them. A run that ends early ends
  below the least integer, and more digits only lead further down.
* `decimalInteger?_eq`: the pass gives the number under its sign exactly when it fits.
* `foldl_wrapDigit`, `hexInteger?_eq`: the unchecked pass gives the number modulo `2 ^ 64`.
-/

namespace LuaKernel

/-! ## Fitting -/

namespace Integer

variable {i j : ℤ}

theorem ofInt?_toInt (n : Int64) : ofInt? n.toInt = some n := ofInt?_eq_some_iff.2 rfl

theorem ofInt?_eq_none_iff : ofInt? i = none ↔ i < -2 ^ 63 ∨ 2 ^ 63 ≤ i := by
  unfold ofInt?
  rw [Int64.toInt_minValue, Int64.toInt_maxValue]
  split <;> simp <;> omega

/-- Below a number that is too low everything is. -/
theorem ofInt?_eq_none_of_le (h : ofInt? i = none) (hi : i ≤ 0) (hji : j ≤ i) : ofInt? j = none := by
  rw [ofInt?_eq_none_iff] at *
  omega

end Integer

namespace Numeral

open Integer

/-! ## One pass -/

/-- Digits may be read first and gathered then. -/
theorem foldlM_digits (value? : UInt8 → Option ℕ) (f : Int64 → ℕ → Option Int64) (s : Bytes) (n : Int64) :
    s.foldlM (fun n b => (value? b).bind (f n)) n =
      (digitValues? value? s).bind fun ds => ds.foldlM f n := by
  unfold digitValues?
  induction s generalizing n with
  | nil => rfl
  | cons b s ih =>
    cases hb : value? b with
    | none => simp [List.foldlM_cons, hb]
    | some d =>
      cases hs : s.mapM value? with
      | none => simp [List.foldlM_cons, List.mapM_cons, hb, ih, hs]
      | some ds => simp [List.foldlM_cons, List.mapM_cons, hb, ih, hs]

theorem ofDigits_cons (base d : ℕ) (ds : List ℕ) :
    ofDigits base (d :: ds) = d * base ^ ds.length + ofDigits base ds := by
  rw [ofDigits, List.foldl_cons, zero_mul, zero_add, foldl_eq_ofDigits]

/-! ## Decimal -/

/-- **One digit more** fits when the number with it does: its tens are nearer to zero. -/
theorem lowerDigit?_eq {n : Int64} (hn : n.toInt ≤ 0) (d : ℕ) :
    lowerDigit? n d = ofInt? (n.toInt * 10 - d) := by
  unfold lowerDigit?
  cases h : ofInt? (n.toInt * 10) with
  | none =>
    rw [ofInt?_eq_none_of_le h (by omega) (by omega)]
    rfl
  | some tens =>
    rw [← ofInt?_eq_some_iff.1 h]
    rfl

/-- **A run of digits** from a number that is not above zero. -/
theorem foldlM_lowerDigit? {n : Int64} (hn : n.toInt ≤ 0) (ds : List ℕ) :
    ds.foldlM lowerDigit? n = ofInt? (n.toInt * 10 ^ ds.length - ofDigits 10 ds) := by
  induction ds generalizing n with
  | nil => simp [ofDigits, ofInt?_toInt]
  | cons d ds ih =>
    have hsplit : n.toInt * 10 ^ (d :: ds).length - ofDigits 10 (d :: ds) =
        (n.toInt * 10 - d) * 10 ^ ds.length - ofDigits 10 ds := by
      rw [ofDigits_cons, List.length_cons]
      push_cast
      ring
    rw [List.foldlM_cons, lowerDigit?_eq hn, hsplit]
    cases h : ofInt? (n.toInt * 10 - d) with
    | none =>
      have hpow : (1 : ℤ) ≤ 10 ^ ds.length := one_le_pow₀ (by norm_num)
      have hle : (n.toInt * 10 - d) * 10 ^ ds.length ≤ n.toInt * 10 - d := by nlinarith
      rw [ofInt?_eq_none_of_le h (by omega) (by omega)]
      rfl
    | some m =>
      have hm := ofInt?_eq_some_iff.1 h
      rw [← hm]
      exact ih (by omega)

/-- **Decimal digits** are read as the number they spell, if it fits under its sign. -/
theorem decimalInteger?_eq (negative : Bool) (s : Bytes) :
    decimalInteger? negative s = (decimal? s).bind fun n => ofInt? (signed negative n) := by
  unfold decimalInteger? decimal?
  split
  · rfl
  rw [foldlM_digits]
  cases digitValues? decimalValue? s with
  | none => rfl
  | some ds =>
    have hrun := foldlM_lowerDigit? (n := 0) le_rfl ds
    rw [Int64.toInt_zero, zero_mul, zero_sub] at hrun
    simp only [Option.bind_some, Option.map_some, hrun]
    cases h : ofInt? (-(ofDigits 10 ds : ℤ)) with
    | none =>
      -- What does not fit below zero does not fit above it.
      have habove : ofInt? (ofDigits 10 ds : ℤ) = none := by
        rw [ofInt?_eq_none_iff] at *
        omega
      cases negative <;> simp [signed, h, habove]
    | some n =>
      have hn := ofInt?_eq_some_iff.1 h
      cases negative <;> simp [signed, h, hn]

/-! ## Hexadecimal -/

/-- **A run of digits**, wrapped at each of them, is wrapped as a whole. -/
theorem foldl_wrapDigit (i : ℤ) (ds : List ℕ) :
    ds.foldl wrapDigit (Int64.ofInt i) = Int64.ofInt (i * 16 ^ ds.length + ofDigits 16 ds) := by
  induction ds generalizing i with
  | nil => simp [ofDigits]
  | cons d ds ih =>
    have hstep : wrapDigit (Int64.ofInt i) d = Int64.ofInt (i * 16 + d) := by
      simp [wrapDigit, Int64.ofInt_add, Int64.ofInt_mul, Int64.ofInt_eq_ofNat]
    rw [List.foldl_cons, hstep, ih, ofDigits_cons, List.length_cons]
    push_cast
    ring_nf

/-- **Hexadecimal digits** are read as the number they spell, wrapped under its sign. -/
theorem hexInteger?_eq (negative : Bool) (s : Bytes) :
    hexInteger? negative s =
      if s.isEmpty then none
      else (digitValues? hexValue? s).map fun ds => Int64.ofInt (signed negative (ofDigits 16 ds)) := by
  unfold hexInteger?
  split
  · rfl
  have hread := foldlM_digits hexValue? (fun n => some ∘ wrapDigit n) s 0
  simp only [← Option.map_eq_bind] at hread
  rw [hread]
  cases digitValues? hexValue? s with
  | none => rfl
  | some ds =>
    have hrun : ds.foldlM (fun n => some ∘ wrapDigit n) 0 = some (Int64.ofInt (ofDigits 16 ds)) := by
      have hwrap := foldl_wrapDigit 0 ds
      rw [zero_mul, zero_add] at hwrap
      rw [← hwrap]
      exact List.foldlM_pure
    cases negative <;> simp [hrun, signed, Int64.ofInt_neg]

end Numeral

end LuaKernel
