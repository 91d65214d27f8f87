import Mathlib
import LuaKernel.Proofs.Binary64.Nearest
import LuaKernel.Proofs.Binary64.Significant
import LuaKernel.Proofs.Numeral.Digits

/-!
# The text of a double, as a decimal

A `Decimal` is a number as it is written: a sign, digits before and after the point, an exponent. It has a
`text` and a `value`, and the two notations are conditions on its parts (`IsFixed`, `IsScientific`). The text of
a finite double is that of a decimal in one of them, and its value is the double rounded to 14
significant digits (`Binary64.text_rounded`).

The decimals written are `fixed` and `scientific`. What the model computes as bytes is related to their parts
first (`text_fixed`, `text_scientific`); values and shapes are then facts about digits.
-/

namespace LuaKernel

open Numeral

/-- A number in decimal notation. An exponent is its sign and its digits. -/
structure Decimal where
  negative : Bool
  whole : List (Fin 10)
  fraction : List (Fin 10)
  exponent : Option (Bool × List (Fin 10))

namespace Decimal

def signText (negative : Bool) : Bytes := if negative then Bytes.ascii "-" else []

/-- A point and the digits after it, or nothing. -/
def fractionText (ds : List (Fin 10)) : Bytes := if ds = [] then [] else Bytes.ascii "." ++ spell ds

def exponentText : Option (Bool × List (Fin 10)) → Bytes
  | none => []
  | some (negative, ds) => Bytes.ascii (if negative then "e-" else "e+") ++ spell ds

def text (t : Decimal) : Bytes :=
  signText t.negative ++ spell t.whole ++ fractionText t.fraction ++ exponentText t.exponent

def fractionValue (ds : List (Fin 10)) : ℚ := number ds / 10 ^ ds.length

def exponentValue : Option (Bool × List (Fin 10)) → ℤ
  | none => 0
  | some (negative, ds) => signed negative (number ds)

/-- The number written, without the sign. -/
def magnitude (t : Decimal) : ℚ :=
  (number t.whole + fractionValue t.fraction) * 10 ^ exponentValue t.exponent

def value (t : Decimal) : ℚ := if t.negative then -t.magnitude else t.magnitude

/-- Fixed notation: no exponent, no zeros in front, and none at the end but for a fraction that is just `.0`. -/
structure IsFixed (t : Decimal) : Prop where
  exponent : t.exponent = none
  whole : t.whole = [0] ∨ t.whole ≠ [] ∧ t.whole.head? ≠ some 0
  fraction : t.fraction = [0] ∨ t.fraction ≠ [] ∧ t.fraction.getLast? ≠ some 0

/-- Scientific notation: one digit before the point, a fraction without zeros at the end, and an exponent of
two digits, or of more with no zero in front. -/
structure IsScientific (t : Decimal) (e : ℤ) : Prop where
  whole : ∃ d, d ≠ 0 ∧ t.whole = [d]
  fraction : t.fraction.getLast? ≠ some 0
  exponent : ∃ ds, t.exponent = some (decide (e < 0), ds) ∧ number ds = e.natAbs ∧ 2 ≤ ds.length ∧
    (2 < ds.length → ds.head? ≠ some 0)

/-! ## Fractions -/

theorem fractionValue_trimmed (ds : List (Fin 10)) : fractionValue (trimmed ds) = fractionValue ds := by
  obtain ⟨k, hk⟩ := trimmed_append_zeros ds
  conv_rhs => rw [hk]
  rw [fractionValue, fractionValue, number_append, number_replicate_zero, List.length_append,
    List.length_replicate, pow_add, add_zero]
  push_cast
  rw [mul_div_mul_right _ _ (by positivity)]

theorem fractionValue_padded {k n : ℕ} (h : n < 10 ^ k) : fractionValue (padded k n) = n / 10 ^ k := by
  rw [fractionValue, number_padded]
  rcases Nat.eq_zero_or_pos k with rfl | hk
  · obtain rfl : n = 0 := by omega
    simp
  · rw [length_padded hk h]

theorem fractionValue_lt_one (ds : List (Fin 10)) : fractionValue ds < 1 := by
  rw [fractionValue, div_lt_one (by positivity)]
  exact_mod_cast number_lt ds

theorem fractionValue_pos {ds : List (Fin 10)} (hds : ds ≠ []) (h : ds.getLast? ≠ some 0) :
    0 < fractionValue ds := by
  obtain ⟨es, d, rfl⟩ := (List.eq_nil_or_concat' ds).resolve_left hds
  have hd : 0 < d.val := by
    have : d ≠ 0 := by simpa using h
    exact Fin.pos_iff_ne_zero.2 this
  have : 0 < number (es ++ [d]) := by
    rw [number_append, number_singleton]
    omega
  rw [fractionValue]
  positivity

/-- **`.0` stands where the number is whole**, and only there. -/
theorem IsFixed.fraction_eq_zero_iff {t : Decimal} (h : t.IsFixed) :
    t.fraction = [0] ↔ ∃ n : ℤ, t.value = n := by
  have hmagnitude : t.magnitude = number t.whole + fractionValue t.fraction := by
    simp [magnitude, h.exponent, exponentValue]
  constructor
  · intro hzero
    have hfraction : fractionValue t.fraction = 0 := by
      rw [hzero, fractionValue, number_singleton]
      simp
    rw [value, hmagnitude, hfraction, add_zero]
    split
    · exact ⟨-number t.whole, by push_cast; rfl⟩
    · exact ⟨number t.whole, by push_cast; rfl⟩
  · rintro ⟨n, hn⟩
    refine h.fraction.resolve_right fun ⟨hne, hlast⟩ => ?_
    have hpos := fractionValue_pos hne hlast
    have hlt := fractionValue_lt_one t.fraction
    -- A whole number would leave a whole number strictly between 0 and 1.
    obtain ⟨m, hm⟩ : ∃ m : ℤ, fractionValue t.fraction = m := by
      rw [value, hmagnitude] at hn
      split at hn
      · exact ⟨-n - number t.whole, by push_cast; linarith⟩
      · exact ⟨n - number t.whole, by push_cast; linarith⟩
    rw [hm] at hpos hlt
    have : 0 < m := by exact_mod_cast hpos
    have : m < 1 := by exact_mod_cast hlt
    omega

/-! ## The digits around the point -/

/-- The digits of `n / 10 ^ places` after the point, without zeros at the end. -/
def pointFraction (n places : ℕ) : List (Fin 10) := trimmed (padded places (n % 10 ^ places))

theorem pointText_eq (n places : ℕ) :
    Binary64.pointText n places =
      spell (digits (n / 10 ^ places)) ++ fractionText (pointFraction n places) := by
  have hbytes : (((Integer.natText (n % Nat.pow 10 places)).leftpad places Binary64.digitZero).reverse.dropWhile
      (· == Binary64.digitZero)).reverse = spell (pointFraction n places) := by
    rw [leftpad_natText, trimmed_spell]
    rfl
  unfold Binary64.pointText fractionText
  simp only [hbytes]
  rw [natText_eq]
  cases pointFraction n places with
  | nil => simp [spell]
  | cons d ds => simp [spell]

theorem number_add_fractionValue (n places : ℕ) :
    (number (digits (n / 10 ^ places)) : ℚ) + fractionValue (pointFraction n places) = n / 10 ^ places := by
  have hpos : 0 < 10 ^ places := by positivity
  rw [number_digits, pointFraction, fractionValue_trimmed, fractionValue_padded (Nat.mod_lt _ hpos)]
  have := div_eq_quotient_add n (10 ^ places) hpos
  push_cast at this ⊢
  exact this.symm

theorem whole_digits (n : ℕ) : digits n = [0] ∨ digits n ≠ [] ∧ (digits n).head? ≠ some 0 := by
  rcases Nat.eq_zero_or_pos n with rfl | hn
  · exact .inl digits_zero
  · exact .inr ⟨digits_ne_nil n, head?_digits hn.ne'⟩

/-! ## Marking a text as a float -/

theorem withPoint_of_mem {s : Bytes} {b : UInt8} (hb : b ∈ s) (h : Binary64.isIntegerByte b = false) :
    Binary64.withPoint s = s := by
  rw [Binary64.withPoint, if_neg]
  intro hall
  rw [List.all_eq_true.1 hall b hb] at h
  cases h

theorem withPoint_of_digits (negative : Bool) (ds : List (Fin 10)) :
    Binary64.withPoint (signText negative ++ spell ds) = signText negative ++ spell ds ++ Bytes.ascii ".0" := by
  rw [Binary64.withPoint, if_pos]
  rw [List.all_append, Bool.and_eq_true]
  constructor
  · cases negative <;> decide
  · rw [List.all_eq_true]
    intro b hb
    obtain ⟨d, -, rfl⟩ := List.mem_map.1 hb
    exact isIntegerByte_digitByte d

/-! ## Fixed notation -/

/-- `n / 10 ^ places` in fixed notation. -/
def fixed (negative : Bool) (n places : ℕ) : Decimal where
  negative
  whole := digits (n / 10 ^ places)
  fraction := if pointFraction n places = [] then digits 0 else pointFraction n places
  exponent := none

theorem text_fixed (negative : Bool) (n places : ℕ) :
    (fixed negative n places).text = Binary64.withPoint (signText negative ++ Binary64.pointText n places) := by
  rw [text, fixed, pointText_eq]
  simp only [exponentText, List.append_nil]
  split
  next hnil =>
    have hempty : fractionText [] = [] := rfl
    rw [hnil, hempty, List.append_nil, withPoint_of_digits, digits_zero]
    rfl
  next hne =>
    rw [← List.append_assoc]
    refine (withPoint_of_mem (b := 0x2e) ?_ (by decide)).symm
    have hpoint : (0x2e : UInt8) ∈ Bytes.ascii "." := by decide
    simp [fractionText, hne, hpoint]

theorem magnitude_fixed (negative : Bool) (n places : ℕ) :
    (fixed negative n places).magnitude = n / 10 ^ places := by
  have hfraction : fractionValue (if pointFraction n places = [] then digits 0 else pointFraction n places) =
      fractionValue (pointFraction n places) := by
    split
    next hnil =>
      have hnone : number [] = 0 := rfl
      simp [hnil, fractionValue, number_digits, hnone]
    next => rfl
  rw [magnitude, fixed]
  simp only [exponentValue, zpow_zero, mul_one]
  rw [hfraction, number_add_fractionValue]

theorem isFixed_fixed (negative : Bool) (n places : ℕ) : (fixed negative n places).IsFixed where
  exponent := rfl
  whole := whole_digits _
  fraction := by
    rw [fixed]
    simp only
    split
    · exact .inl digits_zero
    · exact .inr ⟨‹_›, getLast?_trimmed _⟩

/-! ## Scientific notation -/

/-- A decimal of 14 digits in scientific notation. -/
def scientific (negative : Bool) (s : Binary64.Significant) : Decimal where
  negative
  whole := digits (s.digits / 10 ^ 13)
  fraction := pointFraction s.digits 13
  exponent := some (decide (s.exponent < 0), padded 2 s.exponent.natAbs)

theorem exponentText_eq (e : ℤ) :
    Binary64.exponentText e = exponentText (some (decide (e < 0), padded 2 e.natAbs)) := by
  rw [Binary64.exponentText, leftpad_natText, exponentText]
  simp only [decide_eq_true_eq]

theorem exponentValue_eq (e : ℤ) : exponentValue (some (decide (e < 0), padded 2 e.natAbs)) = e := by
  rw [exponentValue, number_padded]
  unfold signed
  split
  next h =>
    rw [decide_eq_true_eq] at h
    omega
  next h =>
    rw [decide_eq_true_eq] at h
    omega

/-- Two digits at least, and a zero in front only to make them two. -/
theorem padded_two (n : ℕ) : 2 ≤ (padded 2 n).length ∧ (2 < (padded 2 n).length → (padded 2 n).head? ≠ some 0) := by
  have hlength : (padded 2 n).length = 2 - (digits n).length + (digits n).length := by simp [padded]
  refine ⟨by omega, fun h => ?_⟩
  have hlong : 2 < (digits n).length := by omega
  have hne : n ≠ 0 := by
    rintro rfl
    rw [digits_zero] at hlong
    simp at hlong
  rw [padded, Nat.sub_eq_zero_of_le hlong.le, List.replicate_zero, List.nil_append]
  exact head?_digits hne

theorem text_scientific (negative : Bool) (s : Binary64.Significant) :
    (scientific negative s).text =
      Binary64.withPoint (signText negative ++
        (Binary64.pointText s.digits 13 ++ Binary64.exponentText s.exponent)) := by
  rw [text, scientific, pointText_eq, exponentText_eq]
  simp only [List.append_assoc]
  refine (withPoint_of_mem (b := 0x65) ?_ (by decide)).symm
  have hminus : (0x65 : UInt8) ∈ Bytes.ascii "e-" := by decide
  have hplus : (0x65 : UInt8) ∈ Bytes.ascii "e+" := by decide
  by_cases h : s.exponent < 0 <;> simp [exponentText, h, hminus, hplus]

theorem magnitude_scientific (negative : Bool) (s : Binary64.Significant) :
    (scientific negative s).magnitude = s.value := by
  rw [magnitude, scientific]
  simp only
  rw [number_add_fractionValue, exponentValue_eq, Binary64.Significant.zpow_eq, Binary64.Significant.value,
    ← mul_assoc, div_mul_cancel₀ _ (by positivity)]

theorem isScientific_scientific (negative : Bool) {s : Binary64.Significant} (hs : s.Normal) :
    (scientific negative s).IsScientific s.exponent where
  whole := by
    obtain ⟨hlow, hhigh⟩ := hs
    have hpos : 0 < s.digits / 10 ^ 13 := Nat.div_pos hlow (by positivity)
    have hlt : s.digits / 10 ^ 13 < 10 := by
      rw [Nat.div_lt_iff_lt_mul (by positivity)]
      exact hhigh
    refine ⟨⟨_, hlt⟩, ?_, digits_of_lt hlt⟩
    rw [Ne, Fin.ext_iff]
    exact hpos.ne'
  fraction := getLast?_trimmed _
  exponent := ⟨_, rfl, number_padded _ _, padded_two _⟩

end Decimal

/-! ## Doubles -/

namespace Binary64

open Significant

variable {num den : ℕ}

/-- Both notations write the digits found by rounding once. -/
theorem generalText_eq (hnum : 0 < num) (hden : 0 < den) {s : Significant} (hs : significant num den = s) :
    generalText num den =
      if -4 ≤ s.exponent ∧ s.exponent < 14 then pointText s.digits (13 - s.exponent).toNat
      else pointText s.digits 13 ++ exponentText s.exponent := by
  have hround := roundPlaces_significant hnum hden
  have hlimit : (precision : ℤ) = 14 := rfl
  have hlast : (precision : ℤ) - 1 - s.exponent = 13 - s.exponent := rfl
  unfold generalText
  rw [hs] at hround ⊢
  simp only [hlast]
  by_cases h : -4 ≤ s.exponent ∧ s.exponent < 14
  · have hplaces : ((13 - s.exponent).toNat : ℤ) = 13 - s.exponent := by omega
    rw [if_neg (by omega), if_pos h, hplaces, hround]
  · rw [if_pos (by omega), if_neg h]
    rfl

theorem Significant.value_eq_div {s : Significant} (h : s.exponent < 14) :
    s.value = s.digits / 10 ^ (13 - s.exponent).toNat := by
  have hplaces : s.exponent - 13 = -((13 - s.exponent).toNat : ℤ) := by omega
  rw [Significant.value, unit, hplaces, zpow_neg, zpow_natCast, div_eq_mul_inv]

/-- **A positive ratio is written as a decimal**, under a sign, with the value it is rounded to. -/
theorem exists_decimal (negative : Bool) (hnum : 0 < num) (hden : 0 < den) {s : Significant}
    (hs : significant num den = s) :
    ∃ t : Decimal, withPoint (Decimal.signText negative ++ generalText num den) = t.text ∧
      t.negative = negative ∧ t.magnitude = s.value ∧
      (-4 ≤ s.exponent ∧ s.exponent < 14 → t.IsFixed) ∧
      (¬(-4 ≤ s.exponent ∧ s.exponent < 14) → t.IsScientific s.exponent) := by
  rw [generalText_eq hnum hden hs]
  by_cases h : -4 ≤ s.exponent ∧ s.exponent < 14
  · refine ⟨.fixed negative s.digits (13 - s.exponent).toNat, ?_, rfl, ?_,
      fun _ => Decimal.isFixed_fixed .., fun hn => absurd h hn⟩
    · rw [if_pos h, Decimal.text_fixed]
    · rw [Decimal.magnitude_fixed, Significant.value_eq_div h.2]
  · have hnormal : s.Normal := hs ▸ (isNearest_significant hnum hden).normal
    refine ⟨.scientific negative s, ?_, rfl, Decimal.magnitude_scientific .., fun hf => absurd hf h,
      fun _ => Decimal.isScientific_scientific negative hnormal⟩
    rw [if_neg h, Decimal.text_scientific]

theorem unitsOf_pos {m : ℕ} (h : m ≠ 0) : 0 < unitsOf m := by
  have := fractionSize_pos
  unfold unitsOf
  split
  · omega
  · rw [Nat.shiftLeft_eq]
    positivity

theorem abs_value (x : Binary64) : |x.value| = x.absUnits / unitsPerOne := by
  rw [value, abs_div, abs_units, Nat.abs_cast]
  rfl

theorem value_neg_iff {x : Binary64} (h : 0 < x.absUnits) : x.value < 0 ↔ x.isNegative := by
  have hU : (0 : ℚ) < unitsPerOne := by exact_mod_cast unitsPerOne_pos
  have hx : (0 : ℚ) < x.absUnits := by exact_mod_cast h
  rw [value, units, div_neg_iff]
  cases x.isNegative <;> simp [hU, hU.le, hx, hx.le]

/-- **A finite double is written with 14 significant digits**: its text is the decimal of that many digits
nearest to it, halves to even, in the notation for the exponent of that decimal. Rounding the double again to
the places which fixed notation shows gives the same digits. -/
theorem text_rounded (x : Binary64) (hfinite : x.isFinite) (hzero : x.isZero = false) :
    ∃ (s : Significant) (t : Decimal),
      (∀ s' : Significant, s'.IsNearest |x.value| ↔ s' = s) ∧
      x.text = t.text ∧ t.value = (if x.value < 0 then -s.value else s.value) ∧
      (-4 ≤ s.exponent ∧ s.exponent < 14 →
        t.IsFixed ∧ (t.fraction = [0] ↔ ∃ n : ℤ, t.value = n) ∧
          roundPlaces x.absUnits unitsPerOne (13 - s.exponent) = s.digits) ∧
      (¬(-4 ≤ s.exponent ∧ s.exponent < 14) → t.IsScientific s.exponent) := by
  have hpos : 0 < x.absUnits := unitsOf_pos (by simpa [isZero] using hzero)
  have hU := unitsPerOne_pos
  obtain ⟨t, htext, hneg, hmagnitude, hfixed, hscientific⟩ := exists_decimal x.isNegative hpos hU rfl
  refine ⟨significant x.absUnits unitsPerOne, t, fun s' => ?_, ?_, ?_, fun h => ?_, hscientific⟩
  · rw [abs_value]
    exact isNearest_iff hpos hU
  · rw [← htext, text]
    have hlt : x.magnitude < infinityMagnitude := by simpa [isFinite] using hfinite
    rw [if_neg (by simp [isNaN]; omega), if_neg (by simp [isInfinite]; omega), if_neg (by simp [hzero])]
    rfl
  · simp only [Decimal.value, hneg, hmagnitude, value_neg_iff hpos]
  · exact ⟨hfixed h, (hfixed h).fraction_eq_zero_iff, roundPlaces_significant hpos hU⟩

/-- The double next below 10 has 14 nines behind its point; rounding carries, and the exponent is that of 10.
The doubles next to pi and at 1e14 show the last digit and the first exponent of scientific notation. -/
theorem text_rounded_carry :
    let x : Binary64 := ⟨0x4023ffffffffffff⟩
    let pi : Binary64 := ⟨0x400921fb54442d18⟩
    let large : Binary64 := ⟨0x42d6bcc41e900000⟩
    (x.isFinite ∧ x.isZero = false ∧ x.text = Bytes.ascii "10.0" ∧
      ∃ t : Decimal, x.text = t.text ∧ t.value = 10 ∧ t.IsFixed ∧ t.fraction = [0] ∧
        decimalExponent x.absUnits unitsPerOne = 0 ∧ roundPlaces x.absUnits unitsPerOne 12 = 10 ^ 13) ∧
    (pi.text = Bytes.ascii "3.1415926535898" ∧ ∃ t : Decimal, pi.text = t.text ∧ t.IsFixed) ∧
    large.text = Bytes.ascii "1e+14" ∧ ∃ t : Decimal, large.text = t.text ∧ t.IsScientific 14 := by
  intro x pi large
  have hfinite : x.isFinite := by decide +kernel
  have hzero : x.isZero = false := by decide +kernel
  have hpos : 0 < x.absUnits := by decide +kernel
  -- What rounding gives is found by computing it, and is the only nearest decimal.
  have hfound {y : Binary64} {s s' : Significant} (hy : 0 < y.absUnits)
      (hs : ∀ s' : Significant, s'.IsNearest |y.value| ↔ s' = s)
      (hcompute : significant y.absUnits unitsPerOne = s') : s = s' := by
    rw [← hcompute, eq_comm, ← hs, abs_value, isNearest_iff hy unitsPerOne_pos]
  refine ⟨⟨hfinite, hzero, by decide +kernel, ?_⟩, ⟨by decide +kernel, ?_⟩, by decide +kernel, ?_⟩
  · obtain ⟨s, t, hs, htext, hvalue, hfixed, -⟩ := text_rounded x hfinite hzero
    obtain rfl : s = ⟨10 ^ 13, 1⟩ := hfound hpos hs (by decide +kernel)
    obtain ⟨hfixed, hpoint, hround⟩ := hfixed ⟨by norm_num, by norm_num⟩
    have hten : t.value = 10 := by
      have hnegative : ¬x.value < 0 := by
        rw [value_neg_iff hpos]
        decide +kernel
      rw [hvalue, if_neg hnegative, Significant.value, unit]
      norm_num
    exact ⟨t, htext, hten, hfixed, hpoint.2 ⟨10, hten⟩, by decide +kernel, hround⟩
  · obtain ⟨s, t, hs, htext, -, hfixed, -⟩ := text_rounded pi (by decide +kernel) (by decide +kernel)
    obtain rfl : s = ⟨31415926535898, 0⟩ := hfound (by decide +kernel) hs (by decide +kernel)
    exact ⟨t, htext, (hfixed ⟨by norm_num, by norm_num⟩).1⟩
  · obtain ⟨s, t, hs, htext, -, -, hscientific⟩ := text_rounded large (by decide +kernel) (by decide +kernel)
    obtain rfl : s = ⟨10 ^ 13, 14⟩ := hfound (by decide +kernel) hs (by decide +kernel)
    exact ⟨t, htext, hscientific (by norm_num)⟩

end Binary64

end LuaKernel
