import Mathlib
import LuaKernel.Proofs.Numeral.Integers

/-!
# Float numerals

The reader of floats takes the float numerals of the grammar, with blanks around them, and no other bytes.
It has three ways to a double, and they take one language together: a hexadecimal integer is a hexadecimal
float as well (`isSome_hexFloat?_of_hexInteger?`), and of the texts that stand for a double the words are
kept out by their letters (`textFloat?_of_not_foreign`).

* `exists_parts_iff`, `numeral_iff`: a mantissa and an exponent behind it; digits around a point and an exponent
  behind them, for both bases.
* `isSome_decimalFloat?_iff`, `isSome_hexFloat?_iff`: the readers of one base.
* `isSome_textFloat?_iff`: a text of a double is a decimal numeral or a word.
-/

namespace LuaKernel.Numeral

/-! ## Splitting -/

section
variable {p : UInt8 → Bool} {s u v : Bytes} {c : UInt8}

theorem splitAt?_of_forall (h : ∀ b ∈ s, p b = false) : splitAt? p s = (s, none) := by
  have hall : ∀ b ∈ s, (!p b) = true := fun b hb => by simp [h b hb]
  simp [splitAt?, List.takeWhile_eq_self_iff.2 hall, List.dropWhile_eq_nil_iff.2 hall]

theorem splitAt?_append (hu : ∀ b ∈ u, p b = false) (hc : p c) :
    splitAt? p (u ++ c :: v) = (u, some v) := by
  have hall : ∀ b ∈ u, (!p b) = true := fun b hb => by simp [hu b hb]
  simp [splitAt?, List.takeWhile_append_of_pos hall, List.dropWhile_append_of_pos hall, hc]

/-- There is no place to split at, or a first one. -/
theorem splitAt?_cases (p : UInt8 → Bool) (s : Bytes) :
    (splitAt? p s = (s, none) ∧ ∀ b ∈ s, p b = false) ∨
      ∃ u c v, s = u ++ c :: v ∧ p c ∧ splitAt? p s = (u, some v) := by
  cases h : s.find? p with
  | none =>
    have hs : ∀ b ∈ s, p b = false := by simpa using h
    exact .inl ⟨splitAt?_of_forall hs, hs⟩
  | some c =>
    obtain ⟨hc, u, v, rfl, hu⟩ := List.find?_eq_some_iff_append.1 h
    exact .inr ⟨u, c, v, rfl, hc, splitAt?_append (by simpa using hu) hc⟩

/-- **Two parts**, of which the second starts with the mark: they are found again where the first has no
mark. -/
theorem exists_parts_iff {M V : Bytes → Prop} {E : Option Bytes → Prop}
    (hM : ∀ u, M u → ∀ b ∈ u, p b = false) (hnil : V [] ↔ E none)
    (hcons : ∀ c t, V (c :: t) ↔ p c ∧ E (some t)) {mantissa : Bytes} {exponent : Option Bytes}
    (hs : splitAt? p s = (mantissa, exponent)) :
    (∃ u v, M u ∧ V v ∧ s = u ++ v) ↔ M mantissa ∧ E exponent := by
  obtain ⟨rfl, rfl⟩ : (splitAt? p s).1 = mantissa ∧ (splitAt? p s).2 = exponent := by simp [hs]
  constructor
  · rintro ⟨u, v, hu, hv, rfl⟩
    cases v with
    | nil =>
      rw [List.append_nil, splitAt?_of_forall (hM u hu)]
      exact ⟨hu, hnil.1 hv⟩
    | cons c t =>
      obtain ⟨hc, ht⟩ := (hcons c t).1 hv
      rw [splitAt?_append (hM u hu) hc]
      exact ⟨hu, ht⟩
  · rintro ⟨hu, hv⟩
    rcases splitAt?_cases p s with ⟨hsplit, -⟩ | ⟨u, c, t, rfl, hc, hsplit⟩ <;> rw [hsplit] at hu hv
    · exact ⟨s, [], hu, hnil.2 hv, (List.append_nil s).symm⟩
    · exact ⟨u, c :: t, hu, (hcons c t).2 ⟨hc, hv⟩, rfl⟩

end

theorem splitPoint_of_forall {u : Bytes} (h : ∀ b ∈ u, isPoint b = false) : splitPoint u = (u, []) := by
  simp [splitPoint, splitAt?_of_forall h]

theorem splitPoint_append {u v : Bytes} (hu : ∀ b ∈ u, isPoint b = false) :
    splitPoint (u ++ Bytes.ascii "." ++ v) = (u, v) := by
  have hsplit := splitAt?_append (v := v) hu (show isPoint '.'.toUInt8 by decide)
  have hpoint : u ++ Bytes.ascii "." ++ v = u ++ '.'.toUInt8 :: v := by simp [Bytes.ascii]
  simp [splitPoint, hpoint, hsplit]

/-! ## Digits around a point -/

theorem PointForm.fraction_le {digits u : Bytes} {k : ℕ} (h : PointForm digits k u) : k ≤ u.length := by
  cases h with
  | whole => exact Nat.zero_le _
  | point => rw [List.length_append]; omega

/-- **Digits around a point**, by the parts they are split in. -/
theorem pointForm_iff {digits u whole fraction : Bytes} (hdigits : ∀ b ∈ digits, isPoint b = false)
    (hsplit : splitPoint u = (whole, fraction)) {k : ℕ} :
    PointForm digits k u ↔
      whole ++ fraction ⊆ digits ∧ whole ++ fraction ≠ [] ∧ k = fraction.length := by
  obtain ⟨rfl, rfl⟩ : (splitPoint u).1 = whole ∧ (splitPoint u).2 = fraction := by simp [hsplit]
  constructor
  · intro h
    cases h with
    | whole hu hne =>
      rw [splitPoint_of_forall fun b hb => hdigits b (hu hb)]
      simpa using ⟨hu, hne⟩
    | point hu hv hne =>
      rw [splitPoint_append fun b hb => hdigits b (hu hb)]
      exact ⟨List.append_subset.2 ⟨hu, hv⟩, hne, rfl⟩
  · rintro ⟨hsub, hne, rfl⟩
    rcases splitAt?_cases isPoint u with ⟨-, hu⟩ | ⟨x, c, y, rfl, hc, hsplit⟩
    · rw [splitPoint_of_forall hu] at hsub hne ⊢
      exact .whole (by simpa using hsub) (by simpa using hne)
    · obtain rfl : c = '.'.toUInt8 := by simpa [isPoint] using hc
      have hpoint : splitPoint (x ++ '.'.toUInt8 :: y) = (x, y) := by simp [splitPoint, hsplit]
      rw [hpoint] at hsub hne ⊢
      have hform := PointForm.point (List.append_subset.1 hsub).1 (List.append_subset.1 hsub).2 hne
      simpa [Bytes.ascii] using hform

theorem exponentForm_cons_iff {marks t : Bytes} {c : UInt8} {P : ℤ → Prop} :
    ExponentForm marks P (c :: t) ↔ c ∈ marks ∧ ∃ e, SignedForm e t ∧ P e := by
  constructor
  · intro h
    cases h with
    | written hmark ht he => exact ⟨hmark, _, ht, he⟩
  · rintro ⟨hc, e, ht, he⟩
    exact .written hc ht he

/-- **Digits and an exponent**: where the reader finds the mark of the exponent, the grammar has it. -/
theorem numeral_iff {digits marks s : Bytes} {p : UInt8 → Bool} {P : ℤ → Prop} {k : ℕ}
    (hmarks : ∀ b, p b ↔ b ∈ marks) (hdigits : ∀ b ∈ digits ++ Bytes.ascii ".", p b = false)
    {mantissa : Bytes} {exponent : Option Bytes} (hs : splitAt? p s = (mantissa, exponent)) :
    (∃ u v, PointForm digits k u ∧ ExponentForm marks P v ∧ s = u ++ v) ↔
      PointForm digits k mantissa ∧ ∀ t ∈ exponent, ∃ e, SignedForm e t ∧ P e := by
  refine exists_parts_iff (E := fun o => ∀ t ∈ o, ∃ e, SignedForm e t ∧ P e)
    (fun u hu b hb => hdigits b (PointForm.subset hu hb)) ?_ (fun c t => ?_) hs
  · simp [ExponentForm.absent]
  · simp [exponentForm_cons_iff, hmarks]

/-! ## Decimal -/

theorem isSome_digitValues?_iff {value? : UInt8 → Option ℕ} {s : Bytes} :
    (digitValues? value? s).isSome ↔ ∀ b ∈ s, (value? b).isSome := by
  unfold digitValues?
  induction s with
  | nil => simp
  | cons b s ih =>
    rw [List.mapM_cons]
    cases hb : value? b <;> cases hs : s.mapM value? <;> simp_all

theorem isSome_decimalValue?_iff {b : UInt8} : (decimalValue? b).isSome ↔ b ∈ decimalDigits := by
  simp only [Option.isSome_iff_exists, decimalValue?_eq_some_iff, mem_decimalDigits]
  simp

theorem isSome_hexValue?_iff {b : UInt8} : (hexValue? b).isSome ↔ b ∈ hexDigits := by
  simp only [Option.isSome_iff_exists, hexValue?_eq_some_iff, mem_hexDigits]
  simp

theorem isSome_decimal?_iff {s : Bytes} : (decimal? s).isSome ↔ s ⊆ decimalDigits ∧ s ≠ [] := by
  unfold decimal?
  split
  · simp_all
  · simp_all [isSome_digitValues?_iff, isSome_decimalValue?_iff, List.subset_def]

theorem isSome_signedDecimal?_iff {t : Bytes} : (signedDecimal? t).isSome ↔ ∃ e, SignedForm e t := by
  simp only [Option.isSome_iff_exists, signedDecimal?_eq_some_iff]

theorem isSome_decimalFloat?_parts {negative : Bool} {s mantissa whole fraction : Bytes}
    {exponent : Option Bytes} (hs : splitAt? isDecimalExponent s = (mantissa, exponent))
    (hmantissa : splitPoint mantissa = (whole, fraction)) :
    (decimalFloat? negative s).isSome ↔
      (decimal? (whole ++ fraction)).isSome ∧ ∀ t ∈ exponent, (signedDecimal? t).isSome := by
  simp only [decimalFloat?, hs, hmantissa]
  cases decimal? (whole ++ fraction) with
  | none => simp
  | some n =>
    cases exponent with
    | none => simp
    | some t => cases h : signedDecimal? t <;> simp [h]

/-- **Decimal float numerals** are what their reader takes. -/
theorem isSome_decimalFloat?_iff {negative : Bool} {s : Bytes} :
    (decimalFloat? negative s).isSome ↔ DecimalFloatForm s := by
  have hmarks : ∀ b, isDecimalExponent b ↔ b ∈ Bytes.ascii "eE" := by simp [isDecimalExponent, Bytes.ascii]
  have hdigits : ∀ b ∈ decimalDigits ++ Bytes.ascii ".", isDecimalExponent b = false :=
    forall_of_any rfl
  have hpoint : ∀ b ∈ decimalDigits, isPoint b = false := forall_of_any rfl
  rcases hs : splitAt? isDecimalExponent s with ⟨mantissa, exponent⟩
  rcases hmantissa : splitPoint mantissa with ⟨whole, fraction⟩
  have hform : DecimalFloatForm s ↔ _ := exists_congr fun k => numeral_iff hmarks hdigits hs
  rw [isSome_decimalFloat?_parts hs hmantissa, hform, isSome_decimal?_iff]
  simp only [pointForm_iff hpoint hmantissa, isSome_signedDecimal?_iff, and_true]
  simp

/-! ## Words -/

theorem isSome_wordFloat?_iff {negative : Bool} {w : Bytes} :
    (wordFloat? negative w).isSome ↔ IsFloatWord w := by
  unfold wordFloat? IsFloatWord
  dsimp only
  split
  · simp_all [← or_assoc]
  · split <;> simp_all

/-- **A text of a double** is a decimal numeral or a word. -/
theorem isSome_textFloat?_iff {negative : Bool} {w : Bytes} :
    (textFloat? negative w).isSome ↔ DecimalFloatForm w ∨ IsFloatWord w := by
  rw [textFloat?, Option.isSome_or, Bool.or_eq_true, isSome_wordFloat?_iff, isSome_decimalFloat?_iff, or_comm]

theorem mem_of_toLower {b : UInt8} (h : toLower b ∈ Bytes.ascii "in") : b ∈ Bytes.ascii "iInN" := by
  have hlower : Bytes.ascii "in" = [0x69, 0x6e] := rfl
  have hboth : Bytes.ascii "iInN" = [0x69, 0x49, 0x6e, 0x4e] := rfl
  simp only [hlower, hboth, List.mem_cons, List.not_mem_nil, or_false] at h ⊢
  unfold toLower at h
  grind

/-- Every word starts with a letter that no numeral has. -/
theorem IsFloatWord.exists_letter {w : Bytes} (h : IsFloatWord w) : ∃ b ∈ w, b ∈ Bytes.ascii "iInN" := by
  cases w with
  | nil => rcases h with h | h | h <;> cases h
  | cons b w =>
    have hb : toLower b ∈ Bytes.ascii "in" := by
      rcases h with h | h | h <;> rw [(List.cons.inj h).1] <;> decide
    exact ⟨b, List.mem_cons_self, mem_of_toLower hb⟩

theorem IsFloatWord.foreign {w : Bytes} (h : IsFloatWord w) : w.any isForeignLetter := by
  have hall : (Bytes.ascii "iInN").all isForeignLetter := rfl
  obtain ⟨b, hb, hletter⟩ := h.exists_letter
  exact List.any_eq_true.2 ⟨b, hb, List.all_eq_true.1 hall b hletter⟩

theorem DecimalFloatForm.not_foreign {w : Bytes} (h : DecimalFloatForm w) :
    w.any isForeignLetter = false := by
  have hall : ∀ b ∈ Bytes.ascii "0123456789.eE+-", isForeignLetter b = false :=
    forall_of_any rfl
  simpa using fun b hb => hall b (h.subset hb)

/-- **Without a foreign letter** a text of a double is a decimal numeral. -/
theorem textFloat?_of_not_foreign {negative : Bool} {w : Bytes} (h : w.any isForeignLetter = false) :
    textFloat? negative w = decimalFloat? negative w := by
  have hword : wordFloat? negative w = none := by
    rw [← Option.not_isSome_iff_eq_none, isSome_wordFloat?_iff]
    intro hw
    rw [hw.foreign] at h
    cases h
  rw [textFloat?, hword, Option.none_or]

/-! ## Hexadecimal -/

theorem fitExponent?_eq_some_iff {e : ℤ} {n : Int32} : fitExponent? e = some n ↔ n.toInt = e := by
  have hlow := n.le_toInt
  have hhigh := n.toInt_lt
  rw [fitExponent?, Int32.toInt_minValue, Int32.toInt_maxValue]
  constructor
  · intro h
    split at h
    · cases h
      exact Int32.toInt_ofInt_of_le (by omega) (by omega)
    · cases h
  · rintro rfl
    rw [if_pos (by omega), Int32.ofInt_toInt]

theorem isSome_fitExponent?_iff {e : ℤ} : (fitExponent? e).isSome ↔ Fits32 e := by
  unfold fitExponent? Fits32
  rw [Int32.toInt_minValue, Int32.toInt_maxValue]
  split <;> simp <;> omega

/-- Numerals that are not too long keep the scale of their digits in 32 bits. -/
theorem toInt_fractionScale {k : ℕ} (hk : k < 2 ^ 29) : (fractionScale k).toInt = -4 * k :=
  Int32.toInt_ofInt_of_le (by omega) (by omega)

theorem isSome_binaryExponent?_iff {k : ℕ} (hk : k < 2 ^ 29) {exponent : Option Bytes} :
    (binaryExponent? k exponent).isSome ↔
      ∀ t ∈ exponent, ∃ e, SignedForm e t ∧ Fits32 e ∧ Fits32 (e - 4 * (k : ℤ)) := by
  cases exponent with
  | none => simp [binaryExponent?]
  | some t =>
    simp only [binaryExponent?, ← signedDecimal?_eq_some_iff, Option.mem_some_iff, forall_eq']
    cases h : signedDecimal? t with
    | none => simp
    | some e =>
      cases hfit : fitExponent? e with
      | none =>
        have hnot : ¬Fits32 e := by simp [← isSome_fitExponent?_iff, hfit]
        simp [hfit, hnot]
      | some n =>
        have he : Fits32 e := by simp [← isSome_fitExponent?_iff, hfit]
        have hsum : (fractionScale k).toInt + n.toInt = e - 4 * k := by
          rw [toInt_fractionScale hk, fitExponent?_eq_some_iff.1 hfit]
          ring
        simp [hfit, he, hsum, isSome_fitExponent?_iff]

theorem length_splitAt?_le {p : UInt8 → Bool} {s mantissa : Bytes} {exponent : Option Bytes}
    (h : splitAt? p s = (mantissa, exponent)) : mantissa.length ≤ s.length := by
  rcases splitAt?_cases p s with ⟨hsplit, -⟩ | ⟨u, c, v, rfl, -, hsplit⟩ <;> rw [hsplit] at h <;> cases h
  · exact le_rfl
  · simp

theorem isSome_hexDigits_iff {u : Bytes} : (digitValues? hexValue? u).isSome ↔ u ⊆ hexDigits := by
  simp only [isSome_digitValues?_iff, isSome_hexValue?_iff, List.subset_def]

theorem isSome_hexFloat?_parts {negative : Bool} {s mantissa whole fraction : Bytes}
    {exponent : Option Bytes} (hs : splitAt? isBinaryExponent s = (mantissa, exponent))
    (hmantissa : splitPoint mantissa = (whole, fraction)) :
    (hexFloat? negative s).isSome ↔
      (whole ++ fraction ⊆ hexDigits ∧ whole ++ fraction ≠ []) ∧
        (binaryExponent? fraction.length exponent).isSome := by
  simp only [hexFloat?, hs, hmantissa]
  rw [← isSome_hexDigits_iff]
  cases hread : digitValues? hexValue? (whole ++ fraction) with
  | none => simp
  | some ns =>
    obtain ⟨ds, hds, rfl⟩ := digitValues?_hex_iff.1 hread
    by_cases hne : ds = []
    · simp [hne, hds.eq_nil_iff.1 hne]
    · cases binaryExponent? fraction.length exponent <;> simp [hne, ← hds.eq_nil_iff]

/-- **Hexadecimal float numerals**, behind their mark, are what their reader takes. -/
theorem isSome_hexFloat?_iff {negative : Bool} {s : Bytes} (hs : s.length < 2 ^ 29) :
    (hexFloat? negative s).isSome ↔ HexFloatDigits s := by
  have hmarks : ∀ b, isBinaryExponent b ↔ b ∈ Bytes.ascii "pP" := by simp [isBinaryExponent, Bytes.ascii]
  have hdigits : ∀ b ∈ hexDigits ++ Bytes.ascii ".", isBinaryExponent b = false :=
    forall_of_any rfl
  have hpoint : ∀ b ∈ hexDigits, isPoint b = false := forall_of_any rfl
  rcases hsplit : splitAt? isBinaryExponent s with ⟨mantissa, exponent⟩
  rcases hmantissa : splitPoint mantissa with ⟨whole, fraction⟩
  have hform : HexFloatDigits s ↔ _ := exists_congr fun k => numeral_iff hmarks hdigits hsplit
  have hlength := length_splitAt?_le hsplit
  rw [isSome_hexFloat?_parts hsplit hmantissa, hform]
  constructor
  · rintro ⟨⟨hsub, hne⟩, hexponent⟩
    have hpart := (pointForm_iff hpoint hmantissa).2 ⟨hsub, hne, rfl⟩
    have hle := hpart.fraction_le
    exact ⟨_, hpart, (isSome_binaryExponent?_iff (by omega)).1 hexponent⟩
  · rintro ⟨k, hpart, hexponent⟩
    have hle := hpart.fraction_le
    obtain ⟨hsub, hne, rfl⟩ := (pointForm_iff hpoint hmantissa).1 hpart
    exact ⟨⟨hsub, hne⟩, (isSome_binaryExponent?_iff (by omega)).2 hexponent⟩

/-- A hexadecimal integer is a float numeral with neither point nor exponent. -/
theorem isSome_hexFloat?_of_hexInteger? {negative : Bool} {u : Bytes} {v : Int64}
    (h : hexInteger? negative u = some v) : (hexFloat? negative u).isSome := by
  obtain ⟨ds, hds, hu, -⟩ := hexInteger?_eq_some_iff.1 h
  have hsub := hu.subset
  have hmark : ∀ b ∈ hexDigits, isBinaryExponent b = false := forall_of_any rfl
  have hpoint : ∀ b ∈ hexDigits, isPoint b = false := forall_of_any rfl
  have hne : u ≠ [] := fun hnil => hds (hu.eq_nil_iff.2 hnil)
  rw [isSome_hexFloat?_parts (splitAt?_of_forall fun b hb => hmark b (hsub hb))
    (splitPoint_of_forall fun b hb => hpoint b (hsub hb))]
  simp [hsub, hne, binaryExponent?]

/-! ## Either -/

theorem isSome_float?_hex {s sign mark u : Bytes} {negative : Bool} (hs : u.length < 2 ^ 29)
    (htrim : s.trim = sign ++ (mark ++ u)) (hsign : SignForm negative sign) (hmark : IsHexMark mark) :
    (float? s).isSome ↔ HexFloatDigits u := by
  simp only [float?, htrim, splitSign_mark hsign hmark, hexBody?_eq_some_iff.2 ⟨mark, hmark, rfl⟩]
  have hfloat : (hexFloat? negative u).isSome ↔ HexFloatDigits u := isSome_hexFloat?_iff hs
  rw [← hfloat]
  cases h : hexInteger? negative u with
  | none => rfl
  | some v => simp [isSome_hexFloat?_of_hexInteger? h]

/-- **Without a mark** a string is read as a decimal numeral. -/
theorem float?_decimal {s u : Bytes} {negative : Bool} (hsplit : splitSign s.trim = (negative, u))
    (hhex : hexBody? u = none) : float? s = decimalFloat? negative u := by
  simp only [float?, hsplit, hhex]
  split
  · rename_i hforeign
    symm
    rw [← Option.not_isSome_iff_eq_none, isSome_decimalFloat?_iff]
    intro h
    rw [h.not_foreign] at hforeign
    cases hforeign
  · rename_i hforeign
    exact textFloat?_of_not_foreign (by simpa using hforeign)

theorem isSome_float?_decimal {s u : Bytes} {negative : Bool} (hsplit : splitSign s.trim = (negative, u))
    (hhex : hexBody? u = none) : (float? s).isSome ↔ DecimalFloatForm u := by
  rw [float?_decimal hsplit hhex, isSome_decimalFloat?_iff]

theorem DecimalFloatForm.head? {u : Bytes} (h : DecimalFloatForm u) :
    ∀ b, u.head? = some b → b ∉ Bytes.ascii "+-" := by
  have hall : ∀ b ∈ decimalDigits ++ Bytes.ascii ".", b ∉ Bytes.ascii "+-" :=
    disjoint_of_any rfl
  obtain ⟨k, m, v, hm, -, rfl⟩ := h
  intro b hb
  rw [List.head?_append_of_ne_nil _ hm.ne_nil] at hb
  exact hall b (hm.subset (List.mem_of_head? hb))

/-- **What is read is a numeral.** -/
theorem floatForm_of_float? {s : Bytes} (hs : s.length < 2 ^ 29) (h : (float? s).isSome) :
    FloatForm s.trim := by
  obtain ⟨negative, sign, u, hsplit, hsign, htrim⟩ := exists_sign s.trim
  obtain ⟨l, r, -, -, hsurrounded⟩ := surrounded_trim s
  rw [htrim]
  cases hhex : hexBody? u with
  | none => exact ⟨_, _, u, hsign, .inl ((isSome_float?_decimal hsplit hhex).1 h), rfl⟩
  | some digits =>
    obtain ⟨mark, hmark, rfl⟩ := hexBody?_eq_some_iff.1 hhex
    have hlength : digits.length ≤ s.length := by
      rw [hsurrounded, htrim]
      simp
      omega
    have hdigits := (isSome_float?_hex (by omega) htrim hsign hmark).1 h
    exact ⟨_, _, mark ++ digits, hsign, .inr ⟨mark, digits, hmark, hdigits, rfl⟩, rfl⟩

/-- **A numeral is read**, whatever blanks are around it. -/
theorem isSome_float?_of_floatForm {s t : Bytes} (hs : s.length < 2 ^ 29) (h : FloatForm t)
    (hsurrounded : Surrounded t s) : (float? s).isSome := by
  have hsolid : ∀ b ∈ Bytes.ascii "0123456789abcdefABCDEFxXpP.+-", Bytes.isBlank b = false :=
    forall_of_any rfl
  have htrim := hsurrounded.trim_eq fun b hb => hsolid b (h.subset hb)
  obtain ⟨negative, sign, u, hsign, hu | ⟨mark, digits, hmark, hdigits, rfl⟩, rfl⟩ := h
  · have hsplit := splitSign_append hsign hu.head?
    rw [← htrim] at hsplit
    exact (isSome_float?_decimal hsplit (hexBody?_of_subset hu.subset (disjoint_of_any rfl))).2 hu
  · have hlength : digits.length ≤ s.length := by
      obtain ⟨l, r, -, -, rfl⟩ := hsurrounded
      simp
      omega
    exact (isSome_float?_hex (by omega) htrim hsign hmark).2 hdigits

/-- **The reader of floats recognises the float numerals**, with blanks around them, among the strings
whose digits 32 bits can count. No word for an infinity or a NaN is one, though each is the text of a
double. -/
theorem float?_recognises {s : Bytes} (hs : s.length < 2 ^ 29) :
    ((float? s).isSome ↔ ∃ t, Surrounded t s ∧ FloatForm t) ∧
      ∀ negative sign w, SignForm negative sign → IsFloatWord w → Surrounded (sign ++ w) s →
        (textFloat? negative w).isSome ∧ float? s = none := by
  have hrecognised : (float? s).isSome ↔ ∃ t, Surrounded t s ∧ FloatForm t :=
    ⟨fun h => ⟨s.trim, surrounded_trim s, floatForm_of_float? hs h⟩,
      fun ⟨t, ht, h⟩ => isSome_float?_of_floatForm hs h ht⟩
  refine ⟨hrecognised, fun negative sign w _ hw hword => ⟨isSome_textFloat?_iff.2 (.inr hw), ?_⟩⟩
  rw [← Option.not_isSome_iff_eq_none, hrecognised]
  rintro ⟨t, ⟨l, r, hl, hr, hs⟩, ht⟩
  -- The word's first letter is in the string, but neither a blank nor in a numeral.
  have hblank : ∀ b ∈ Bytes.ascii " \t\n\x0c\r", b ∉ Bytes.ascii "iInN" :=
    disjoint_of_any rfl
  have hnumeral : ∀ b ∈ Bytes.ascii "0123456789abcdefABCDEFxXpP.+-", b ∉ Bytes.ascii "iInN" :=
    disjoint_of_any rfl
  obtain ⟨b, hb, hletter⟩ := hw.exists_letter
  have hmem : b ∈ l ++ t ++ r := by
    obtain ⟨l', r', -, -, hs'⟩ := hword
    rw [← hs, hs']
    simp [hb]
  rcases List.mem_append.1 hmem with hmem | hmem
  · rcases List.mem_append.1 hmem with hmem | hmem
    · exact hblank b (hl hmem) hletter
    · exact hnumeral b (ht.subset hmem) hletter
  · exact hblank b (hr hmem) hletter

/-- An exponent of which a fractional digit takes four, to the least that 32 bits hold, and one less; and a
word that is no numeral. -/
theorem float?_recognises_scaled :
    (Bytes.ascii "\t-0x.8P-2147483644 ").length < 2 ^ 29 ∧
      (∃ t, Surrounded t (Bytes.ascii "\t-0x.8P-2147483644 ") ∧ FloatForm t) ∧
      (Bytes.ascii "\t-0x.8P-2147483645 ").length < 2 ^ 29 ∧
      (¬∃ t, Surrounded t (Bytes.ascii "\t-0x.8P-2147483645 ") ∧ FloatForm t) ∧
      (textFloat? true (Bytes.ascii "iNfinity")).isSome ∧ float? (Bytes.ascii "\t-iNfinity ") = none := by
  have hlength : (Bytes.ascii "\t-0x.8P-2147483644 ").length < 2 ^ 29 := by simp [Bytes.ascii]
  have hlength' : (Bytes.ascii "\t-0x.8P-2147483645 ").length < 2 ^ 29 := by simp [Bytes.ascii]
  have haccepted : (float? (Bytes.ascii "\t-0x.8P-2147483644 ")).isSome := rfl
  have hrefused : float? (Bytes.ascii "\t-0x.8P-2147483645 ") = none := rfl
  have hsurrounded : Surrounded (Bytes.ascii "-" ++ Bytes.ascii "iNfinity") (Bytes.ascii "\t-iNfinity ") :=
    ⟨Bytes.ascii "\t", Bytes.ascii " ", subset_of_all (List.Subset.refl _) rfl,
      subset_of_all (List.Subset.refl _) rfl, rfl⟩
  refine ⟨hlength, (float?_recognises hlength).1.1 haccepted, hlength', fun h => ?_, ?_⟩
  · have hread := (float?_recognises hlength').1.2 h
    rw [hrefused] at hread
    cases hread
  · exact (float?_recognises (by simp [Bytes.ascii])).2 true _ _ .minus (.inr (.inl rfl)) hsurrounded

end LuaKernel.Numeral
