import Mathlib
import LuaKernel.Binary64.Text
import LuaKernel.Numeral.Float

/-!
# Decimal digits and the numbers they spell

A run of decimal digits is a `List (Fin 10)`, most significant first: `spell` writes it as bytes and `number`
is its value. Numerals read such a run and no other bytes (`decimal?_eq_some_iff`), and numbers are written
as one (`natText_eq`).

* `number_append`, `number_replicate_zero`, `number_lt`: digits after one another.
* `digits`: the digits of a number, with no zero in front but for zero itself.
* `padded`: digits filled up to a length with zeros in front.
* `trimmed`: digits without the zeros at their end.
-/

namespace LuaKernel.Numeral

def digitByte (d : Fin 10) : UInt8 := '0'.toUInt8 + UInt8.ofNat d

/-- A run of digits as bytes. -/
def spell (ds : List (Fin 10)) : Bytes := ds.map digitByte

/-- The number that a run of digits spells. -/
def number (ds : List (Fin 10)) : ℕ := ofDigits 10 (ds.map Fin.val)

/-! ## Bytes -/

theorem not_isPoint_digitByte (d : Fin 10) : isPoint (digitByte d) = false := by decide +revert

theorem not_isDecimalExponent_digitByte (d : Fin 10) : isDecimalExponent (digitByte d) = false := by
  decide +revert

theorem isIntegerByte_digitByte (d : Fin 10) : Binary64.isIntegerByte (digitByte d) := by decide +revert

theorem digitByte_eq_zero_iff (d : Fin 10) : digitByte d = Binary64.digitZero ↔ d = 0 := by
  decide +revert

theorem decimalValue?_eq_some_iff {b : UInt8} {n : ℕ} :
    decimalValue? b = some n ↔ ∃ d : Fin 10, b = digitByte d ∧ n = d := by
  constructor
  · intro h
    unfold decimalValue? isDigit at h
    split at h
    · rename_i hb
      rw [Bool.and_eq_true, decide_eq_true_eq, decide_eq_true_eq, UInt8.le_iff_toNat_le,
        UInt8.le_iff_toNat_le] at hb
      have h0 : '0'.toUInt8.toNat = 48 := rfl
      have h9 : '9'.toUInt8.toNat = 57 := rfl
      have h0' : '0'.toNat = 48 := rfl
      rw [h0, h9] at hb
      rw [h0'] at h
      cases h
      refine ⟨⟨b.toNat - 48, by omega⟩, ?_, rfl⟩
      apply UInt8.toNat_inj.1
      rw [digitByte, UInt8.toNat_add, h0, UInt8.toNat_ofNat']
      simp only
      omega
    · cases h
  · rintro ⟨d, rfl, rfl⟩
    decide +revert

theorem digitValues?_spell (ds : List (Fin 10)) :
    digitValues? decimalValue? (spell ds) = some (ds.map Fin.val) := by
  unfold digitValues? spell
  induction ds with
  | nil => rfl
  | cons d ds ih =>
    have hd : decimalValue? (digitByte d) = some d.val := decimalValue?_eq_some_iff.2 ⟨d, rfl, rfl⟩
    simp [List.mapM_cons, hd, ih]

theorem eq_spell_of_digitValues? {s : Bytes} {ns : List ℕ}
    (h : digitValues? decimalValue? s = some ns) : ∃ ds, s = spell ds ∧ ns = ds.map Fin.val := by
  unfold digitValues? at h
  induction s generalizing ns with
  | nil =>
    cases h
    exact ⟨[], rfl, rfl⟩
  | cons b s ih =>
    simp only [List.mapM_cons, Option.pure_def, Option.bind_eq_bind, Option.bind_eq_some_iff,
      Option.some.injEq] at h
    obtain ⟨n, hn, ns', hns, rfl⟩ := h
    obtain ⟨d, rfl, rfl⟩ := decimalValue?_eq_some_iff.1 hn
    obtain ⟨ds, rfl, rfl⟩ := ih hns
    exact ⟨d :: ds, rfl, rfl⟩

/-- **Numerals read runs of digits**, of one at least. -/
theorem decimal?_eq_some_iff {s : Bytes} {n : ℕ} :
    decimal? s = some n ↔ ∃ ds, ds ≠ [] ∧ s = spell ds ∧ n = number ds := by
  unfold decimal?
  constructor
  · intro h
    split at h
    · cases h
    · rename_i hs
      obtain ⟨ns, hns, rfl⟩ := Option.map_eq_some_iff.1 h
      obtain ⟨ds, rfl, rfl⟩ := eq_spell_of_digitValues? hns
      exact ⟨ds, by rintro rfl; exact hs rfl, rfl, rfl⟩
  · rintro ⟨ds, hds, rfl, rfl⟩
    rw [if_neg (by simpa [spell] using hds), digitValues?_spell]
    rfl

/-! ## Values -/

theorem foldl_eq_ofDigits (base n : ℕ) (ds : List ℕ) :
    ds.foldl (fun n d => n * base + d) n = n * base ^ ds.length + ofDigits base ds := by
  unfold ofDigits
  induction ds generalizing n with
  | nil => simp
  | cons d ds ih =>
    rw [List.foldl_cons, ih, List.foldl_cons, ih (0 * base + d), List.length_cons, pow_succ]
    ring

theorem number_append (ds es : List (Fin 10)) :
    number (ds ++ es) = number ds * 10 ^ es.length + number es := by
  unfold number
  rw [List.map_append, ofDigits, List.foldl_append, foldl_eq_ofDigits, List.length_map]
  rfl

theorem number_singleton (d : Fin 10) : number [d] = d := by simp [number, ofDigits]

theorem number_replicate_zero (n : ℕ) : number (List.replicate n 0) = 0 := by
  induction n with
  | zero => rfl
  | succ n ih => rw [List.replicate_succ', number_append, ih, number_singleton]; rfl

theorem number_lt (ds : List (Fin 10)) : number ds < 10 ^ ds.length := by
  induction ds using List.reverseRecOn with
  | nil => simp [number, ofDigits]
  | append_singleton ds d ih =>
    have hd := d.isLt
    rw [number_append, number_singleton, List.length_append, List.length_singleton, pow_succ]
    omega

/-! ## The digits of a number -/

def digits (n : ℕ) : List (Fin 10) :=
  if h : n < 10 then [⟨n, h⟩] else digits (n / 10) ++ [Fin.ofNat 10 n]

theorem digits_of_lt {n : ℕ} (h : n < 10) : digits n = [⟨n, h⟩] := by rw [digits, dif_pos h]

theorem digits_zero : digits 0 = [0] := digits_of_lt (by norm_num)

theorem digits_of_le {n : ℕ} (h : 10 ≤ n) : digits n = digits (n / 10) ++ [Fin.ofNat 10 n] := by
  rw [digits, dif_neg (by omega)]

theorem digitChar_toUInt8 (d : Fin 10) : (Nat.digitChar d).toUInt8 = digitByte d := by decide +revert

theorem natText_eq (n : ℕ) : Integer.natText n = spell (digits n) := by
  unfold Integer.natText spell
  induction n using Nat.strongRecOn with
  | ind n ih =>
    rcases Nat.lt_or_ge n 10 with h | h
    · rw [Nat.toDigits_of_lt_base h, digits_of_lt h]
      exact congrArg (fun b => [b]) (digitChar_toUInt8 ⟨n, h⟩)
    · rw [Nat.toDigits_of_base_le (by norm_num) h, digits_of_le h, List.map_append, List.map_append,
        ih (n / 10) (by omega)]
      exact congrArg (fun b => _ ++ [b]) (digitChar_toUInt8 (Fin.ofNat 10 n))

theorem number_digits (n : ℕ) : number (digits n) = n := by
  induction n using Nat.strongRecOn with
  | ind n ih =>
    rcases Nat.lt_or_ge n 10 with h | h
    · rw [digits_of_lt h, number_singleton]
    · rw [digits_of_le h, number_append, ih (n / 10) (by omega), number_singleton, List.length_singleton,
        Fin.val_ofNat]
      omega

theorem digits_ne_nil (n : ℕ) : digits n ≠ [] := by
  rw [digits]
  split <;> simp

theorem head?_digits {n : ℕ} (h : n ≠ 0) : (digits n).head? ≠ some 0 := by
  induction n using Nat.strongRecOn with
  | ind n ih =>
    rcases Nat.lt_or_ge n 10 with hn | hn
    · rw [digits_of_lt hn]
      simpa [Fin.ext_iff] using h
    · rw [digits_of_le hn, List.head?_append_of_ne_nil _ (digits_ne_nil _)]
      exact ih (n / 10) (by omega) (by omega)

theorem length_digits_le_iff {n k : ℕ} (hk : 0 < k) : (digits n).length ≤ k ↔ n < 10 ^ k := by
  have h : (digits n).length = (Nat.toDigits 10 n).length := by
    have := congrArg List.length (natText_eq n)
    simpa [Integer.natText, spell] using this.symm
  rw [h, Nat.length_toDigits_le_iff (by norm_num) hk]

/-! ## Zeros in front and at the end -/

def padded (k n : ℕ) : List (Fin 10) := List.replicate (k - (digits n).length) 0 ++ digits n

theorem leftpad_natText (k n : ℕ) :
    (Integer.natText n).leftpad k Binary64.digitZero = spell (padded k n) := by
  have hzero : digitByte 0 = Binary64.digitZero := by decide
  simp [List.leftpad, natText_eq, padded, spell, hzero]

theorem number_padded (k n : ℕ) : number (padded k n) = n := by
  rw [padded, number_append, number_replicate_zero, number_digits, zero_mul, zero_add]

theorem length_padded {k n : ℕ} (hk : 0 < k) (h : n < 10 ^ k) : (padded k n).length = k := by
  have := (length_digits_le_iff hk).2 h
  simp [padded]
  omega

def trimmed (ds : List (Fin 10)) : List (Fin 10) := (ds.reverse.dropWhile (· == 0)).reverse

theorem trimmed_spell (ds : List (Fin 10)) :
    ((spell ds).reverse.dropWhile (· == Binary64.digitZero)).reverse = spell (trimmed ds) := by
  have hp : ((· == Binary64.digitZero) ∘ digitByte) = (· == (0 : Fin 10)) := by
    funext d
    rw [Bool.eq_iff_iff]
    simpa using digitByte_eq_zero_iff d
  rw [spell, ← List.map_reverse, List.dropWhile_map, ← List.map_reverse, hp, trimmed, spell]

theorem trimmed_append_zeros (ds : List (Fin 10)) : ∃ k, ds = trimmed ds ++ List.replicate k 0 := by
  have hsplit := List.takeWhile_append_dropWhile (p := (· == (0 : Fin 10))) (l := ds.reverse)
  refine ⟨(ds.reverse.takeWhile (· == 0)).length, ?_⟩
  have hzeros : ds.reverse.takeWhile (· == 0) =
      List.replicate (ds.reverse.takeWhile (· == 0)).length 0 := by
    rw [List.eq_replicate_iff]
    refine ⟨rfl, fun d hd => ?_⟩
    simpa using List.mem_takeWhile_imp hd
  calc ds = (ds.reverse.takeWhile (· == 0) ++ ds.reverse.dropWhile (· == 0)).reverse := by
        rw [hsplit, List.reverse_reverse]
    _ = trimmed ds ++ (ds.reverse.takeWhile (· == 0)).reverse := by rw [List.reverse_append, trimmed]
    _ = _ := by rw [hzeros, List.reverse_replicate, List.length_replicate]

theorem getLast?_trimmed (ds : List (Fin 10)) : (trimmed ds).getLast? ≠ some 0 := by
  rw [trimmed, List.getLast?_reverse]
  intro h
  have := List.head?_dropWhile_not (· == (0 : Fin 10)) ds.reverse
  rw [h] at this
  simp at this

end LuaKernel.Numeral
