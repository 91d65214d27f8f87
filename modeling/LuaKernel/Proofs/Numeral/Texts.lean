import Mathlib
import LuaKernel.Proofs.Binary64.DecimalText
import LuaKernel.Proofs.Numeral.Floats

/-!
# The texts of numbers as numerals

What numbers are written as is read again by the readers of numerals. An integer's text is a numeral of that
integer (`Integer.integer?_text`). A double's text is never an integer numeral, and is a float numeral exactly
if the double is finite (`Binary64.text_reads_as_float`).

Every finite double is written as a decimal that has digits where a float numeral needs them and a point or an
exponent where an integer numeral can have neither: `Decimal.IsFloat`. Fixed and scientific notation both give
such decimals.
-/

namespace LuaKernel

open Numeral

/-! ## Integers -/

namespace Integer

theorem integerForm_text (n : Int64) : IntegerForm n (text n) := by
  obtain ⟨negative, sign, ds, hsign, hds, htext, hvalue⟩ := signedForm_intText n.toInt
  rw [text, htext]
  exact .decimal hsign hds hvalue

/-- **An integer's text reads as the integer**, whatever blanks are around it. -/
theorem integer?_text (n : Int64) {l r : Bytes} (hl : Blank l) (hr : Blank r) :
    Numeral.integer? (l ++ text n ++ r) = some n :=
  integer?_of_integerForm (integerForm_text n) ⟨l, r, hl, hr, rfl⟩

end Integer

/-! ## Decimals -/

namespace Decimal

/-- Written as a float: with digits before the point and in an exponent, and with one of the two. -/
structure IsFloat (t : Decimal) : Prop where
  whole : t.whole ≠ []
  exponent : ∀ negative ds, t.exponent = some (negative, ds) → ds ≠ []
  mark : t.fraction ≠ [] ∨ t.exponent ≠ none

variable {t : Decimal}

theorem IsFixed.isFloat (h : t.IsFixed) : t.IsFloat where
  whole := by
    rcases h.whole with hzero | ⟨hne, -⟩
    · simp [hzero]
    · exact hne
  exponent := by simp [h.exponent]
  mark := by
    rcases h.fraction with hzero | ⟨hne, -⟩
    · simp [hzero]
    · exact .inl hne

theorem IsScientific.isFloat {e : ℤ} (h : t.IsScientific e) : t.IsFloat where
  whole := by
    obtain ⟨d, -, hd⟩ := h.whole
    simp [hd]
  exponent := by
    obtain ⟨ds, hds, -, hlength, -⟩ := h.exponent
    rw [hds]
    rintro negative _ ⟨⟩ rfl
    simp at hlength
  mark := by
    obtain ⟨ds, hds, -⟩ := h.exponent
    simp [hds]

/-- The text without the sign. -/
def body (t : Decimal) : Bytes := spell t.whole ++ fractionText t.fraction ++ exponentText t.exponent

theorem text_eq_body (t : Decimal) : t.text = signText t.negative ++ t.body := by
  simp [text, body]

theorem signForm_signText (negative : Bool) : SignForm negative (signText negative) := by
  cases negative with
  | false => exact .absent
  | true => exact .minus

theorem pointForm_digits {whole : List (Fin 10)} (h : whole ≠ []) (fraction : List (Fin 10)) :
    ∃ k, PointForm decimalDigits k (spell whole ++ fractionText fraction) := by
  have hne : spell whole ≠ [] := by simpa [spell] using h
  unfold fractionText
  split
  · exact ⟨0, by simpa using .whole (spell_subset whole) hne⟩
  · refine ⟨(spell fraction).length, ?_⟩
    rw [← List.append_assoc]
    exact .point (spell_subset whole) (spell_subset fraction) (by simp [hne])

theorem exponentForm_exponentText {exponent : Option (Bool × List (Fin 10))}
    (h : ∀ negative ds, exponent = some (negative, ds) → ds ≠ []) :
    ExponentForm (Bytes.ascii "eE") (fun _ => True) (exponentText exponent) := by
  have hmark : 'e'.toUInt8 ∈ Bytes.ascii "eE" := by decide
  rcases exponent with _ | ⟨negative, ds⟩
  · exact .absent
  · have hds := h negative ds rfl
    cases negative with
    | false => exact .written hmark ⟨_, _, ds, .plus, hds, rfl, rfl⟩ trivial
    | true => exact .written hmark ⟨_, _, ds, .minus, hds, rfl, rfl⟩ trivial

theorem IsFloat.decimalFloatForm (h : t.IsFloat) : DecimalFloatForm t.body := by
  obtain ⟨k, hk⟩ := pointForm_digits h.whole t.fraction
  exact ⟨k, _, _, hk, exponentForm_exponentText h.exponent, rfl⟩

/-- A point or the mark of an exponent is no digit. -/
theorem IsFloat.not_digits (h : t.IsFloat) (ds : List (Fin 10)) : t.body ≠ spell ds := by
  have hdigits : ∀ b ∈ decimalDigits, b ∉ Bytes.ascii ".e" := disjoint_of_any rfl
  obtain ⟨b, hb, hmark⟩ : ∃ b ∈ t.body, b ∈ Bytes.ascii ".e" := by
    rcases h.mark with hfraction | hexponent
    · exact ⟨'.'.toUInt8, by simp [body, fractionText, hfraction, Bytes.ascii], by decide⟩
    · obtain ⟨⟨negative, es⟩, hes⟩ := Option.ne_none_iff_exists'.1 hexponent
      refine ⟨'e'.toUInt8, ?_, by decide⟩
      cases negative <;> simp [body, hes, exponentText, Bytes.ascii]
  intro heq
  exact hdigits b (spell_subset ds (heq ▸ hb)) hmark

/-- The sign of a decimal is split from its body, and no mark of a hexadecimal numeral is found there. -/
theorem IsFloat.splitSign_text (h : t.IsFloat) :
    splitSign t.text.trim = (t.negative, t.body) ∧ hexBody? t.body = none := by
  have hsolid : ∀ b ∈ Bytes.ascii "0123456789.eE+-", Bytes.isBlank b = false := forall_of_any rfl
  have hbody := h.decimalFloatForm
  have hsign := signForm_signText t.negative
  have htext : t.text ⊆ Bytes.ascii "0123456789.eE+-" := by
    rw [text_eq_body]
    exact List.append_subset.2 ⟨subset_of_all hsign.subset rfl, hbody.subset⟩
  have hself : Surrounded t.text t.text := ⟨[], [], List.nil_subset _, List.nil_subset _, by simp⟩
  rw [hself.trim_eq fun b hb => hsolid b (htext hb), text_eq_body]
  exact ⟨splitSign_append hsign hbody.head?, hexBody?_of_subset hbody.subset (disjoint_of_any rfl)⟩

theorem IsFloat.integer?_text (h : t.IsFloat) : integer? t.text = none := by
  obtain ⟨hsplit, hhex⟩ := h.splitSign_text
  simp only [integer?, hsplit, hhex]
  rw [Option.eq_none_iff_forall_ne_some]
  intro v hv
  obtain ⟨ds, -, hds, -⟩ := decimalInteger?_eq_some_iff.1 hv
  exact h.not_digits ds hds

theorem IsFloat.isSome_float?_text (h : t.IsFloat) : (float? t.text).isSome := by
  obtain ⟨hsplit, hhex⟩ := h.splitSign_text
  exact (isSome_float?_decimal hsplit hhex).2 h.decimalFloatForm

end Decimal

/-! ## Doubles -/

namespace Binary64

/-- **A finite double is written as a float**, zeros as well. -/
theorem exists_isFloat {x : Binary64} (hfinite : x.isFinite) : ∃ t : Decimal, x.text = t.text ∧ t.IsFloat := by
  have hlt : x.magnitude < infinityMagnitude := by simpa [isFinite] using hfinite
  unfold text
  rw [if_neg (by simp [isNaN]; omega), if_neg (by simp [isInfinite]; omega)]
  split
  · refine ⟨.fixed x.isNegative 0 0, ?_, (Decimal.isFixed_fixed ..).isFloat⟩
    rw [Decimal.text_fixed]
    rfl
  · rename_i hzero
    have hpos : 0 < x.absUnits := unitsOf_pos (by simpa [isZero] using hzero)
    obtain ⟨t, htext, -, -, hfixed, hscientific⟩ := exists_decimal x.isNegative hpos unitsPerOne_pos rfl
    refine ⟨t, htext, ?_⟩
    by_cases h : -4 ≤ (significant x.absUnits unitsPerOne).exponent ∧
        (significant x.absUnits unitsPerOne).exponent < 14
    · exact (hfixed h).isFloat
    · exact (hscientific h).isFloat

/-- The texts of infinities and NaNs are words, and no reader takes them. -/
theorem readers_of_not_isFinite {x : Binary64} (h : x.isFinite = false) :
    Numeral.integer? x.text = none ∧ Numeral.float? x.text = none := by
  unfold text
  by_cases hnan : x.isNaN
  · rw [if_pos hnan]
    cases x.isNegative <;> exact ⟨rfl, rfl⟩
  · have hinfinite : x.isInfinite := by
      simp only [isNaN, isFinite, isInfinite, decide_eq_true_eq, decide_eq_false_iff_not] at *
      omega
    rw [if_neg hnan, if_pos hinfinite]
    cases x.isNegative <;> exact ⟨rfl, rfl⟩

/-- **A double's text reads as a float, if at all.** No double's text is an integer numeral, and a float
numeral it is exactly if the double is finite. -/
theorem text_reads_as_float (x : Binary64) :
    Numeral.integer? x.text = none ∧ ((Numeral.float? x.text).isSome ↔ x.isFinite) := by
  cases hfinite : x.isFinite with
  | true =>
    obtain ⟨t, htext, ht⟩ := exists_isFloat hfinite
    rw [htext]
    exact ⟨ht.integer?_text, iff_of_true ht.isSome_float?_text rfl⟩
  | false =>
    obtain ⟨hinteger, hfloat⟩ := readers_of_not_isFinite hfinite
    rw [hfloat]
    exact ⟨hinteger, by simp⟩

end Binary64

end LuaKernel
