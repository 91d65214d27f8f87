import Mathlib
import LuaKernel.Machine
import LuaKernel.Proofs.Binary64.Nearest
import LuaKernel.Proofs.Numeral.Floats
import LuaKernel.Proofs.Operator.Operands

/-!
# The integer and the float reading agree

A value with an integer reading has a float reading, and it is that integer as near as a double gets. An
integer numeral and a float numeral are read by rules of their own: the first has to fit or wraps, the
second is rounded. On decimal digits the float rule rounds the number that the integer rule reads
(`decimalFloat?_of_decimal?`); a hexadecimal integer is one to both; and where the integer is taken from the
float, the float is whole (`Binary64.eq_ofInt64_of_toInt64?`).
-/

namespace LuaKernel

/-! ## Decimal digits as a float -/

namespace Numeral

theorem splitAt?_spell {p : UInt8 → Bool} (hp : ∀ d, p (digitByte d) = false) (ds : List (Fin 10)) :
    splitAt? p (spell ds) = (spell ds, none) := by
  apply splitAt?_of_forall
  intro b hb
  obtain ⟨d, -, rfl⟩ := List.mem_map.1 hb
  exact hp d

/-- **Digits alone** are the number they spell, rounded. -/
theorem decimalFloat?_of_decimal? {s : Bytes} {n : ℕ} (h : decimal? s = some n) (negative : Bool) :
    decimalFloat? negative s = some (Binary64.ofScientific negative n 0) := by
  obtain ⟨ds, -, rfl, -⟩ := decimal?_eq_some_iff.1 h
  have hexponent := splitAt?_spell not_isDecimalExponent_digitByte ds
  have hpoint : splitPoint (spell ds) = (spell ds, []) := by
    rw [splitPoint, splitAt?_spell not_isPoint_digitByte]
    rfl
  simp [decimalFloat?, hexponent, hpoint, h]

end Numeral

namespace Binary64

theorem eq_refl {x : Binary64} (h : x.isNaN = false) : x.eq x := eq_iff.2 ⟨h, h, rfl⟩

/-- A whole number under a sign is rounded as the integer is, but for the sign of a zero. -/
theorem ofScientific_eq_ofInt (negative : Bool) (n : ℕ) :
    (ofScientific negative n 0).eq (ofInt (Numeral.signed negative n)) := by
  unfold ofScientific
  rcases Nat.eq_zero_or_pos n with rfl | hn
  · have hsigned : Numeral.signed negative 0 = 0 := by cases negative <;> rfl
    rw [if_pos rfl, hsigned]
    cases negative <;> decide +kernel
  · have hsigned : (Numeral.signed negative n).natAbs = n := by cases negative <;> simp [Numeral.signed]
    have hsign : decide (Numeral.signed negative n < 0) = negative := by
      cases negative <;> simp [Numeral.signed, hn]
    rw [if_neg (by omega), if_neg (by norm_num), if_neg (by omega), if_pos le_rfl, ofInt, hsigned, hsign]
    have hpow : n * Nat.pow 10 (0 : ℤ).toNat = n := Nat.mul_one n
    rw [hpow]
    exact eq_refl (isNaN_nearest ..)

end Binary64

/-! ## Strings -/

namespace Numeral

/-- **An integer numeral is a float numeral**, of the same number rounded. -/
theorem float?_of_integer? {s : Bytes} {i : Int64} (h : integer? s = some i) :
    ∃ f, float? s = some f ∧ f.eq (Binary64.ofInt64 i) := by
  have hself : (Binary64.ofInt64 i).eq (Binary64.ofInt64 i) := Binary64.eq_refl (Binary64.isNaN_ofInt _)
  unfold integer? at h
  rcases hsplit : splitSign s.trim with ⟨negative, body⟩
  rw [hsplit] at h
  cases hhex : hexBody? body with
  | some digits =>
    simp only [hhex] at h
    exact ⟨_, by simp [float?, hsplit, hhex, h], hself⟩
  | none =>
    simp only [hhex, decimalInteger?_eq] at h
    obtain ⟨n, hn, hi⟩ := Option.bind_eq_some_iff.1 h
    refine ⟨_, (float?_decimal hsplit hhex).trans (decimalFloat?_of_decimal? hn negative), ?_⟩
    rw [Binary64.ofInt64, Integer.ofInt?_eq_some_iff.1 hi]
    exact Binary64.ofScientific_eq_ofInt negative n

end Numeral

/-! ## Values -/

namespace Value

theorem toFloat?_of_toInteger? {v : Value} {i : Int64} (h : v.toInteger? = some i) :
    ∃ f, v.toFloat? = some f ∧ f.eq (Binary64.ofInt64 i) := by
  cases v with
  | nil => cases h
  | boolean b => cases h
  | integer n =>
    cases h
    exact ⟨_, rfl, Binary64.eq_refl (Binary64.isNaN_ofInt _)⟩
  | float x => exact ⟨x, rfl, Binary64.eq_ofInt64_of_toInt64? h⟩
  | string s =>
    rcases Option.or_eq_some_iff.1 h with h | ⟨-, h⟩
    · exact Numeral.float?_of_integer? h
    · obtain ⟨x, hx, hi⟩ := Option.bind_eq_some_iff.1 h
      exact ⟨x, hx, Binary64.eq_ofInt64_of_toInt64? hi⟩

theorem isSome_toFloat? {v : Value} (h : v.toInteger?.isSome) : v.toFloat?.isSome := by
  obtain ⟨i, hi⟩ := Option.isSome_iff_exists.1 h
  obtain ⟨f, hf, -⟩ := toFloat?_of_toInteger? hi
  rw [hf]
  rfl

/-- **The integer and the float reading of a value agree.** The float is the double nearest to the integer, ties
to even. So what a bitwise operator takes every arithmetic operator takes, on either side of an operand it
takes, and an index with an integer reading holds a number. -/
theorem readings_agree (v : Value) (s : Stack) (j : Int) :
    (∀ i, v.toInteger? = some i →
      ∃ f, v.toFloat? = some f ∧ f.IsNearest i.toInt ∧ f.eq (Binary64.ofInt64 i)) ∧
    (∀ op op' : ArithOp, op.isBitwise → op'.isBitwise = false → Takes op v →
      Takes op' v ∧ ∀ w, Takes op' w → ∀ k,
        arith op' v w ≠ .error (.arithmetic op' k) ∧ arith op' w v ≠ .error (.arithmetic op' k)) ∧
    ((s.integerAt? j).isSome → s.isNumberAt j) := by
  refine ⟨fun i hi => ?_, fun op op' hop hop' h => ?_, fun h => ?_⟩
  · obtain ⟨f, hf, heq⟩ := toFloat?_of_toInteger? hi
    exact ⟨f, hf, .congr heq (Binary64.isNearest_ofInt64 i), heq⟩
  · rw [takes_iff, hasReading, if_pos hop] at h
    have hv : Takes op' v := by
      rw [takes_iff, hasReading, hop', if_neg (by decide)]
      exact isSome_toFloat? h
    exact ⟨hv, fun w hw k => ⟨arith_typed_iff.2 ⟨hv, hw⟩ k, arith_typed_iff.2 ⟨hw, hv⟩ k⟩⟩
  · unfold Stack.integerAt? at h
    unfold Stack.isNumberAt Stack.floatAt?
    cases hv : s.slot? j with
    | none => rw [hv] at h; cases h
    | some w =>
      rw [hv] at h
      exact isSome_toFloat? h

/-- The digits of `-(2 ^ 53 + 1)`, which no double is: their float is `-(2 ^ 53)`. -/
theorem readings_agree_rounded :
    let v : Value := .string [0x2d, 0x39, 0x30, 0x30, 0x37, 0x31, 0x39, 0x39, 0x32, 0x35, 0x34, 0x37, 0x34,
      0x30, 0x39, 0x39, 0x33]
    v.toInteger? = some (-9007199254740993) ∧
      (∃ f, v.toFloat? = some f ∧ f.IsNearest (-9007199254740993)) ∧
      v.toFloat? = some ⟨0xc340000000000000⟩ ∧ Takes .band v ∧ Takes .add v := by
  intro v
  obtain ⟨hread, htakes, -⟩ := readings_agree v Machine.initial 1
  have hi : v.toInteger? = some (-9007199254740993) := by decide +kernel
  obtain ⟨f, hf, hnear, -⟩ := hread _ hi
  have hband : Takes .band v := by
    rw [takes_iff]
    decide +kernel
  refine ⟨hi, ⟨f, hf, ?_⟩, by decide +kernel, hband, (htakes .band .add rfl rfl hband).1⟩
  have hcast : (((-9007199254740993 : Int64).toInt : ℤ) : ℚ) = -9007199254740993 := by
    have : (-9007199254740993 : Int64).toInt = -9007199254740993 := by decide +kernel
    rw [this]
    norm_num
  rwa [hcast] at hnear

end Value

end LuaKernel
