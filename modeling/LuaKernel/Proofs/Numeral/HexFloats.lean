import Mathlib
import LuaKernel.Proofs.Binary64.Overflow
import LuaKernel.Proofs.Numeral.Floats

/-!
# The values of hexadecimal float numerals

A hexadecimal float numeral is read in two steps. Its digits are gathered in binary64, and what they give is
scaled by a power of two. The digits may overflow to infinity and the power vanish to zero, and then the
numeral is read as a NaN, whatever number it spells.

* `GathersTo.digit`, `gathersTo_gather`: one digit, and a run of them. The digits give the double of the
  number they spell, less its last digits.
* `GathersTo.isInfinite_iff`: those digits do not matter for overflow.
* `hexFloat?_eq_some_iff`: the numerals and their values.
* `float?_isNaN_iff`: the byte strings that are read as a NaN.
-/

namespace LuaKernel.Numeral

open Binary64

/-! ## Digits gathered in binary64 -/

/-- The double of a number with its last `r` digits cleared, where 53 bits at least are left of it. -/
def GathersTo (n : ℕ) (x : Binary64) : Prop :=
  ∃ r, (r = 0 ∨ 2 ^ 53 ≤ n / 16 ^ r) ∧ x = .ofInt (n / 16 ^ r * 16 ^ r : ℕ)

namespace GathersTo

variable {n d : ℕ} {x : Binary64}

/-- **One digit more.** From 53 bits on it is cleared with the ones before it. -/
theorem digit (h : GathersTo n x) (hd : d < 16) :
    GathersTo (n * 16 + d) ((x.mul (.ofInt 16)).add (.ofInt d)) := by
  obtain ⟨r, hr, rfl⟩ := h
  rcases Nat.lt_or_ge n (2 ^ 53) with hn | hn
  · -- No digit has been cleared yet.
    obtain rfl : r = 0 := hr.resolve_right fun hr => by
      have := Nat.div_le_self n (16 ^ r)
      omega
    refine ⟨0, .inl rfl, ?_⟩
    simp only [pow_zero, Nat.div_one, mul_one]
    exact ofInt_mul_add_of_lt hn hd
  · have hdiv : (n * 16 + d) / 16 ^ (r + 1) = n / 16 ^ r := by
      rw [pow_succ', ← Nat.div_div_eq_div_mul, show (n * 16 + d) / 16 = n by omega]
    have hleft : 2 ^ 53 ≤ n / 16 ^ r := by
      rcases hr with rfl | hr
      · simpa using hn
      · exact hr
    have hlarge : 2 ^ 53 ≤ n / 16 ^ r * 16 ^ r := hleft.trans (Nat.le_mul_of_pos_right _ (by positivity))
    refine ⟨r + 1, .inr (by rwa [hdiv]), ?_⟩
    rw [ofInt_mul_add_of_le hlarge hd, hdiv, pow_succ, mul_assoc]

theorem isNaN_eq (h : GathersTo n x) : x.isNaN = false := by
  obtain ⟨r, -, rfl⟩ := h
  exact isNaN_ofInt _

/-- **Overflow.** The bound ends in zeros, as many as can have been cleared of a number that has not passed
it by far. -/
theorem isInfinite_iff (h : GathersTo n x) : x.isInfinite ↔ overflowBound ≤ n := by
  obtain ⟨r, hr, rfl⟩ := h
  rw [isInfinite_ofInt_iff, overflowBound_eq]
  rcases Nat.lt_or_ge r 243 with hlt | hge
  · -- The digits that were cleared are zeros of the bound.
    have hsplit : 2 ^ 970 = 2 ^ (970 - 4 * r) * 16 ^ r := by
      rw [show 16 = 2 ^ 4 by norm_num, ← pow_mul, ← pow_add]
      congr 1
      omega
    rw [hsplit, ← mul_assoc]
    generalize (2 ^ 54 - 1) * 2 ^ (970 - 4 * r) = c
    rw [Nat.mul_le_mul_right_iff (by positivity), Nat.le_div_iff_mul_le (by positivity)]
  · -- What is left has passed the bound.
    have hpow : 2 ^ 2 * 2 ^ 970 ≤ 16 ^ r := by
      rw [show 16 = 2 ^ 4 by norm_num, ← pow_mul, ← pow_add]
      exact pow_le_pow_right₀ one_le_two (by omega)
    have hfar : (2 ^ 54 - 1) * 2 ^ 970 ≤ n / 16 ^ r * 16 ^ r := by
      calc (2 ^ 54 - 1) * 2 ^ 970 ≤ 2 ^ 53 * 2 ^ 2 * 2 ^ 970 := Nat.mul_le_mul_right _ (by norm_num)
        _ = 2 ^ 53 * (2 ^ 2 * 2 ^ 970) := mul_assoc ..
        _ ≤ n / 16 ^ r * 16 ^ r := Nat.mul_le_mul (hr.resolve_left (by omega)) hpow
    have hle := Nat.div_mul_le_self n (16 ^ r)
    exact ⟨fun h => h.trans hle, fun _ => hfar⟩

end GathersTo

theorem gather_append (ds : List ℕ) (d : ℕ) :
    gather (ds ++ [d]) = ((gather ds).mul (.ofInt 16)).add (.ofInt d) := by
  simp [gather, List.foldl_append]

theorem ofDigits_append (base : ℕ) (ds : List ℕ) (d : ℕ) :
    ofDigits base (ds ++ [d]) = ofDigits base ds * base + d := by
  simp [ofDigits, List.foldl_append]

/-- **A run of digits** from zero. -/
theorem gathersTo_gather (ds : List (Fin 16)) : GathersTo (hexNumber ds) (gather (ds.map Fin.val)) := by
  unfold hexNumber
  induction ds using List.reverseRecOn with
  | nil => exact ⟨0, .inl rfl, rfl⟩
  | append_singleton ds d ih =>
    rw [List.map_append, List.map_singleton, ofDigits_append, gather_append]
    exact ih.digit d.isLt

/-! ## Scaling -/

/-- **A scaled number is no number** where it is infinite and the scale vanishes. -/
theorem isNaN_scale_iff {x : Binary64} (hx : x.isNaN = false) (e : ℤ) :
    (scale x e).isNaN ↔ x.isInfinite ∧ e ≤ -1024 := by
  obtain ⟨m, hpow, hm, hzero⟩ := twoPow_eq e
  unfold scale
  split
  · rename_i h0
    have hnan : (zero false).isNaN = false := isNaN_ofMagnitude (Nat.zero_le _)
    simp [not_isInfinite_of_isZero h0, hnan]
  · rename_i h0
    rw [isNaN_mul_iff hx (by rw [hpow, isNaN_ofMagnitude hm]), hpow, isZero_ofMagnitude hm, decide_eq_true_eq,
      hzero]
    simp [h0]

/-! ## Numerals and their values -/

/-- Hexadecimal digits with at most one point among them, and their values. The number is that of the digits
behind the point. -/
def HexPointForm (ds : List (Fin 16)) (k : ℕ) (u : Bytes) : Prop :=
  PointForm hexDigits k u ∧ HexDigitsForm ds (u.erase '.'.toUInt8)

/-- The binary exponent of a numeral with `k` digits behind its point: the scale of those, and an exponent if
one is written. All three are of 32 bits. -/
inductive ScaleForm (k : ℕ) : Int32 → Bytes → Prop
  | absent : ScaleForm k (fractionScale k) []
  | written {mark : UInt8} {t : Bytes} {e n : Int32} (hmark : mark ∈ Bytes.ascii "pP")
      (ht : SignedForm n.toInt t) (he : e.toInt = (fractionScale k).toInt + n.toInt) :
      ScaleForm k e (mark :: t)

/-- The double of digits and a binary exponent under a sign. -/
def hexValue (negative : Bool) (ds : List (Fin 16)) (e : Int32) : Binary64 :=
  let f := scale (gather (ds.map Fin.val)) e.toInt
  if negative then f.neg else f

section
variable {ds : List (Fin 16)} {k : ℕ} {e : Int32} {u v : Bytes}

theorem PointForm.erase_point {digits whole fraction : Bytes} (h : PointForm digits k u)
    (hdigits : ∀ b ∈ digits, isPoint b = false) (hsplit : splitPoint u = (whole, fraction)) :
    u.erase '.'.toUInt8 = whole ++ fraction := by
  have hpoint {x : Bytes} (hx : ∀ b ∈ x, isPoint b = false) : '.'.toUInt8 ∉ x := fun hmem => by
    cases hx _ hmem
  cases h with
  | whole hu =>
    have hu' : ∀ b ∈ u, isPoint b = false := fun b hb => hdigits b (hu hb)
    rw [splitPoint_of_forall hu'] at hsplit
    cases hsplit
    rw [List.erase_of_not_mem (hpoint hu'), List.append_nil]
  | @point x y hx hy =>
    have hx' : ∀ b ∈ x, isPoint b = false := fun b hb => hdigits b (hx hb)
    rw [splitPoint_append hx'] at hsplit
    cases hsplit
    rw [List.append_assoc, List.erase_append_right _ (hpoint hx')]
    rfl

/-- **Digits around a point**, by the parts they are split in. -/
theorem hexPointForm_iff {whole fraction : Bytes} (hsplit : splitPoint u = (whole, fraction)) :
    HexPointForm ds k u ↔ HexDigitsForm ds (whole ++ fraction) ∧ ds ≠ [] ∧ k = fraction.length := by
  have hdigits : ∀ b ∈ hexDigits, isPoint b = false := forall_of_any rfl
  constructor
  · rintro ⟨hu, hds⟩
    rw [hu.erase_point hdigits hsplit] at hds
    obtain ⟨-, hne, hk⟩ := (pointForm_iff hdigits hsplit).1 hu
    exact ⟨hds, mt hds.eq_nil_iff.1 hne, hk⟩
  · rintro ⟨hds, hne, hk⟩
    have hu := (pointForm_iff hdigits hsplit).2 ⟨hds.subset, mt hds.eq_nil_iff.2 hne, hk⟩
    exact ⟨hu, by rwa [hu.erase_point hdigits hsplit]⟩

theorem scaleForm_nil_iff : ScaleForm k e [] ↔ binaryExponent? k none = some e := by
  constructor
  · intro h
    cases h
    rfl
  · intro h
    cases h
    exact .absent

theorem scaleForm_cons_iff {c : UInt8} {t : Bytes} :
    ScaleForm k e (c :: t) ↔ isBinaryExponent c ∧ binaryExponent? k (some t) = some e := by
  have hmark : isBinaryExponent c ↔ c ∈ Bytes.ascii "pP" := by simp [isBinaryExponent, Bytes.ascii]
  simp only [hmark, binaryExponent?, Option.bind_eq_bind, Option.bind_eq_some_iff, signedDecimal?_eq_some_iff,
    fitExponent?_eq_some_iff]
  constructor
  · intro h
    cases h with
    | written hmark ht he => exact ⟨hmark, _, ht, _, rfl, he⟩
  · rintro ⟨hc, _, ht, n, rfl, he⟩
    exact .written hc ht he

theorem ScaleForm.subset (h : ScaleForm k e v) : v ⊆ Bytes.ascii "pP" ++ (Bytes.ascii "+-" ++ decimalDigits) := by
  cases h with
  | absent => exact List.nil_subset _
  | written hmark ht =>
    exact List.cons_subset.2 ⟨List.mem_append_left _ hmark, List.subset_append_of_subset_right _ ht.subset⟩

/-- **Hexadecimal float numerals**, behind their mark, and their values. -/
theorem hexFloat?_eq_some_iff {negative : Bool} {w : Bytes} {f : Binary64} :
    hexFloat? negative w = some f ↔ ∃ ds k u e v, HexPointForm ds k u ∧ ScaleForm k e v ∧ w = u ++ v ∧
      f = hexValue negative ds e := by
  have hdigits : ∀ b ∈ hexDigits ++ Bytes.ascii ".", isBinaryExponent b = false := forall_of_any rfl
  rcases hsplit : splitAt? isBinaryExponent w with ⟨mantissa, exponent⟩
  rcases hmantissa : splitPoint mantissa with ⟨whole, fraction⟩
  have hparts (ds : List (Fin 16)) (k : ℕ) (e : Int32) :
      (∃ u v, HexPointForm ds k u ∧ ScaleForm k e v ∧ w = u ++ v) ↔
        HexPointForm ds k mantissa ∧ binaryExponent? k exponent = some e :=
    exists_parts_iff (E := fun o => binaryExponent? k o = some e)
      (fun u hu b hb => hdigits b (hu.1.subset hb)) scaleForm_nil_iff (fun _ _ => scaleForm_cons_iff) hsplit
  simp only [hexPointForm_iff hmantissa] at hparts
  constructor
  · intro h
    simp only [hexFloat?, hsplit, hmantissa, Option.bind_eq_bind, Option.bind_eq_some_iff,
      digitValues?_hex_iff] at h
    obtain ⟨_, ⟨ds, hds, rfl⟩, h⟩ := h
    split at h
    · cases h
    rename_i hne
    obtain ⟨e, he, h⟩ := Option.bind_eq_some_iff.1 h
    obtain ⟨u, v, hu, hv, hw⟩ := (hparts ds fraction.length e).2 ⟨⟨hds, by simpa using hne, rfl⟩, he⟩
    exact ⟨ds, _, u, e, v, hu, hv, hw, (Option.some.inj h).symm⟩
  · rintro ⟨ds, k, u, e, v, hu, hv, hw, rfl⟩
    obtain ⟨⟨hds, hne, rfl⟩, he⟩ := (hparts ds k e).1 ⟨u, v, hu, hv, hw⟩
    simp [hexFloat?, hsplit, hmantissa, digitValues?_hex_iff.2 ⟨ds, hds, rfl⟩, hne, he, hexValue]

/-- **Values that are no numbers.** The sign does not matter. -/
theorem isNaN_hexValue_iff {negative : Bool} :
    (hexValue negative ds e).isNaN ↔ overflowBound ≤ hexNumber ds ∧ e.toInt ≤ -1024 := by
  have h := gathersTo_gather ds
  have hscale := isNaN_scale_iff h.isNaN_eq e.toInt
  rw [h.isInfinite_iff] at hscale
  rw [← hscale]
  unfold hexValue
  split
  · rw [isNaN_neg]
  · rfl

end

/-! ## Every numeral -/

/-- A hexadecimal numeral whose digits overflow and whose scale vanishes. -/
def LostForm (w : Bytes) : Prop :=
  ∃ negative sign mark ds k u e v, SignForm negative sign ∧ IsHexMark mark ∧ HexPointForm ds k u ∧
    ScaleForm k e v ∧ w = sign ++ (mark ++ (u ++ v)) ∧ overflowBound ≤ hexNumber ds ∧ e.toInt ≤ -1024

theorem LostForm.subset {w : Bytes} (h : LostForm w) : w ⊆ Bytes.ascii "0123456789abcdefABCDEFxXpP.+-" := by
  obtain ⟨negative, sign, mark, ds, k, u, e, v, hsign, hmark, hu, hv, rfl, -⟩ := h
  simp only [List.append_subset]
  exact ⟨subset_of_all hsign.subset rfl, subset_of_all hmark.subset rfl, subset_of_all hu.1.subset rfl,
    subset_of_all hv.subset rfl⟩

theorem isNaN_of_decimalFloat? {negative : Bool} {s : Bytes} {f : Binary64}
    (h : decimalFloat? negative s = some f) : f.isNaN = false := by
  simp only [decimalFloat?, Option.bind_eq_bind, Option.bind_eq_some_iff] at h
  obtain ⟨n, -, h⟩ := h
  split at h
  · cases h
    exact isNaN_ofScientific ..
  · obtain ⟨e, -, h⟩ := Option.bind_eq_some_iff.1 h
    cases h
    exact isNaN_ofScientific ..

/-- A numeral with a scale is no hexadecimal integer: it has a point or the mark of an exponent. -/
theorem hexInteger?_of_scaled {negative : Bool} {ds : List (Fin 16)} {k : ℕ} {e : Int32} {u v : Bytes}
    (hu : HexPointForm ds k u) (hv : ScaleForm k e v) (he : e.toInt ≠ 0) :
    hexInteger? negative (u ++ v) = none := by
  have hmarks : ∀ b ∈ Bytes.ascii ".pP", b ∉ hexDigits := disjoint_of_any rfl
  rw [Option.eq_none_iff_forall_ne_some]
  intro i hi
  obtain ⟨ds', -, hds', -⟩ := hexInteger?_eq_some_iff.1 hi
  obtain ⟨hu', hv'⟩ := List.append_subset.1 hds'.subset
  cases hv with
  | written hmark => exact hmarks _ (List.mem_cons_of_mem _ hmark) (hv' List.mem_cons_self)
  | absent =>
    cases hu.1 with
    | whole => exact he rfl
    | point =>
      refine hmarks '.'.toUInt8 List.mem_cons_self (hu' ?_)
      simp [Bytes.ascii]

theorem float?_eq_hexFloat? {s sign mark w : Bytes} {negative : Bool} (htrim : s.trim = sign ++ (mark ++ w))
    (hsign : SignForm negative sign) (hmark : IsHexMark mark) (hinteger : hexInteger? negative w = none) :
    float? s = hexFloat? negative w := by
  simp only [float?, htrim, splitSign_mark hsign hmark, hexBody?_eq_some_iff.2 ⟨mark, hmark, rfl⟩, hinteger]

theorem lostForm_of_isNaN {s : Bytes} {f : Binary64} (h : float? s = some f) (hf : f.isNaN) :
    LostForm s.trim := by
  obtain ⟨negative, sign, body, hsplit, hsign, htrim⟩ := exists_sign s.trim
  cases hhex : hexBody? body with
  | none =>
    rw [float?_decimal hsplit hhex] at h
    rw [isNaN_of_decimalFloat? h] at hf
    cases hf
  | some w =>
    obtain ⟨mark, hmark, rfl⟩ := hexBody?_eq_some_iff.1 hhex
    cases hinteger : hexInteger? negative w with
    | some i =>
      simp only [float?, hsplit, hhex, hinteger, Option.some.injEq] at h
      rw [← h, ofInt64, isNaN_ofInt] at hf
      cases hf
    | none =>
      rw [float?_eq_hexFloat? htrim hsign hmark hinteger] at h
      obtain ⟨ds, k, u, e, v, hu, hv, rfl, rfl⟩ := hexFloat?_eq_some_iff.1 h
      obtain ⟨hds, he⟩ := isNaN_hexValue_iff.1 hf
      exact ⟨negative, sign, mark, ds, k, u, e, v, hsign, hmark, hu, hv, htrim, hds, he⟩

theorem LostForm.exists_isNaN {t s : Bytes} (h : LostForm t) (hs : Surrounded t s) :
    ∃ f, float? s = some f ∧ f.isNaN := by
  have hsolid : ∀ b ∈ Bytes.ascii "0123456789abcdefABCDEFxXpP.+-", Bytes.isBlank b = false :=
    forall_of_any rfl
  have htrim := hs.trim_eq fun b hb => hsolid b (h.subset hb)
  obtain ⟨negative, sign, mark, ds, k, u, e, v, hsign, hmark, hu, hv, rfl, hds, he⟩ := h
  refine ⟨hexValue negative ds e, ?_, isNaN_hexValue_iff.2 ⟨hds, he⟩⟩
  rw [float?_eq_hexFloat? htrim hsign hmark (hexInteger?_of_scaled hu hv (by omega))]
  exact hexFloat?_eq_some_iff.2 ⟨ds, k, u, e, v, hu, hv, rfl, rfl⟩

/-- **The byte strings that are read as a NaN** are the hexadecimal numerals with too many digits for a double
and a scale too small for one: the digits are infinite, the power of two is zero, and their product is no
number. -/
theorem float?_isNaN_iff (s : Bytes) :
    (∃ f, float? s = some f ∧ f.isNaN) ↔ ∃ t, Surrounded t s ∧ LostForm t :=
  ⟨fun ⟨_, h, hf⟩ => ⟨s.trim, surrounded_trim s, lostForm_of_isNaN h hf⟩,
    fun ⟨_, hs, ht⟩ => ht.exists_isNaN hs⟩

theorem hexDigitsForm_zeros (n : ℕ) :
    HexDigitsForm (List.replicate n 0) (List.replicate n '0'.toUInt8) := by
  induction n with
  | zero => exact .nil
  | succ n ih => exact .cons (by decide) ih

/-- A digit one and as many zeros as overflow, scaled back to one. -/
theorem float?_isNaN_scaled_one :
    ¬∀ (s : Bytes) (f : Binary64), float? s = some f → f.isNaN = false := by
  have hdigits : HexDigitsForm (1 :: List.replicate 256 0) ('1'.toUInt8 :: List.replicate 256 '0'.toUInt8) :=
    .cons (by decide) (hexDigitsForm_zeros 256)
  have hpoint : ∀ b ∈ hexDigits, isPoint b = false := forall_of_any rfl
  have hform : HexPointForm (1 :: List.replicate 256 0) 0 ('1'.toUInt8 :: List.replicate 256 '0'.toUInt8) :=
    (hexPointForm_iff (splitPoint_of_forall fun b hb => hpoint b (hdigits.subset hb))).2
      ⟨by rwa [List.append_nil], List.cons_ne_nil _ _, rfl⟩
  have hscale : ScaleForm 0 (-1024) (Bytes.ascii "p-1024") :=
    .written (by decide) (n := -1024) ⟨true, Bytes.ascii "-", [1, 0, 2, 4], .minus, by decide, rfl, rfl⟩ rfl
  have hlarge : overflowBound ≤ hexNumber (1 :: List.replicate 256 0) := by
    have hpow : 2 ^ 1024 = 16 ^ 256 := by rw [show 16 = 2 ^ 4 by norm_num, ← pow_mul]
    rw [hexNumber, List.map_cons, ofDigits_cons, List.length_map, List.length_replicate, overflowBound, hpow]
    exact (Nat.sub_le ..).trans (Nat.le_add_right_of_le (one_mul _).ge)
  intro h
  have hlost : LostForm _ :=
    ⟨false, [], Bytes.ascii "0x", _, _, _, _, _, .absent, .inl rfl, hform, hscale, rfl, hlarge, by decide⟩
  obtain ⟨f, hf, hnan⟩ := hlost.exists_isNaN ⟨[], [], List.nil_subset _, List.nil_subset _, rfl⟩
  rw [h _ f hf] at hnan
  cases hnan

end LuaKernel.Numeral
