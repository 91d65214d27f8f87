import Mathlib
import LuaKernel.Proofs.Numeral.Digits

/-!
# The grammar of numerals

What a numeral is, said without a reader. `…Form x u`: the bytes `u` stand for `x`.

* `SignForm`, `SignedForm`, `HexDigitsForm`, `PointForm`, `ExponentForm`: the pieces.
* `IntegerForm v u`: `u` is an integer numeral of the value `v`.
* `FloatForm u`: `u` is a float numeral; `DecimalFloatForm` and `HexFloatForm` without its sign.
* `Surrounded t s`: `s` is `t` with blanks around it.

Few bytes can stand in a numeral, and none of them is a blank: `IntegerForm.subset`, `FloatForm.subset`.
-/

namespace LuaKernel.Numeral

/-! ## Pieces -/

def decimalDigits : Bytes := Bytes.ascii "0123456789"

def hexDigits : Bytes := Bytes.ascii "0123456789abcdefABCDEF"

/-- An optional sign, and whether it is a minus. -/
inductive SignForm : Bool → Bytes → Prop
  | absent : SignForm false []
  | plus : SignForm false (Bytes.ascii "+")
  | minus : SignForm true (Bytes.ascii "-")

/-- A decimal integer with an optional sign. -/
def SignedForm (e : ℤ) (u : Bytes) : Prop :=
  ∃ negative sign ds, SignForm negative sign ∧ ds ≠ [] ∧ u = sign ++ spell ds ∧
    e = signed negative (number ds)

/-- What a hexadecimal digit is written as, in lower and in upper case. -/
def hexBytes (d : Fin 16) : Bytes :=
  [(Bytes.ascii "0123456789abcdef").getD d 0, (Bytes.ascii "0123456789ABCDEF").getD d 0]

/-- Hexadecimal digits, each in either case. -/
def HexDigitsForm (ds : List (Fin 16)) (u : Bytes) : Prop := List.Forall₂ (fun d b => b ∈ hexBytes d) ds u

/-- The number that a run of hexadecimal digits spells. -/
def hexNumber (ds : List (Fin 16)) : ℕ := ofDigits 16 (ds.map Fin.val)

/-- The mark of a hexadecimal numeral. -/
def IsHexMark (u : Bytes) : Prop := u = Bytes.ascii "0x" ∨ u = Bytes.ascii "0X"

/-- Digits, one at least, and at most one point among them. The number is that of the digits behind the
point. -/
inductive PointForm (digits : Bytes) : ℕ → Bytes → Prop
  | whole {u : Bytes} (hu : u ⊆ digits) (hne : u ≠ []) : PointForm digits 0 u
  | point {u v : Bytes} (hu : u ⊆ digits) (hv : v ⊆ digits) (hne : u ++ v ≠ []) :
      PointForm digits v.length (u ++ Bytes.ascii "." ++ v)

/-- Nothing, or a mark and an exponent with a property. -/
inductive ExponentForm (marks : Bytes) (P : ℤ → Prop) : Bytes → Prop
  | absent : ExponentForm marks P []
  | written {mark : UInt8} {u : Bytes} {e : ℤ} (hmark : mark ∈ marks) (hu : SignedForm e u) (he : P e) :
      ExponentForm marks P (mark :: u)

/-- Within 32 bits signed. -/
def Fits32 (e : ℤ) : Prop := -2 ^ 31 ≤ e ∧ e < 2 ^ 31

/-! ## Numerals -/

/-- An integer numeral. The digits of a decimal one spell its value, those of a hexadecimal one spell it
modulo `2 ^ 64`. -/
inductive IntegerForm : Int64 → Bytes → Prop
  | decimal {v : Int64} {negative : Bool} {sign : Bytes} {ds : List (Fin 10)}
      (hsign : SignForm negative sign) (hds : ds ≠ []) (hv : v.toInt = signed negative (number ds)) :
      IntegerForm v (sign ++ spell ds)
  | hexadecimal {v : Int64} {negative : Bool} {sign mark u : Bytes} {ds : List (Fin 16)}
      (hsign : SignForm negative sign) (hmark : IsHexMark mark) (hds : ds ≠ [])
      (hu : HexDigitsForm ds u) (hv : v.toInt = (signed negative (hexNumber ds)).bmod (2 ^ 64)) :
      IntegerForm v (sign ++ (mark ++ u))

/-- A decimal float numeral without its sign. -/
def DecimalFloatForm (w : Bytes) : Prop :=
  ∃ k u v, PointForm decimalDigits k u ∧ ExponentForm (Bytes.ascii "eE") (fun _ => True) v ∧ w = u ++ v

/-- The digits and exponent of a hexadecimal float numeral. Each digit behind the point takes four from
the exponent, which has to fit before and after. -/
def HexFloatDigits (w : Bytes) : Prop :=
  ∃ k u v, PointForm hexDigits k u ∧
    ExponentForm (Bytes.ascii "pP") (fun e => Fits32 e ∧ Fits32 (e - 4 * (k : ℤ))) v ∧ w = u ++ v

/-- A hexadecimal float numeral without its sign. -/
def HexFloatForm (w : Bytes) : Prop := ∃ mark u, IsHexMark mark ∧ HexFloatDigits u ∧ w = mark ++ u

/-- A float numeral. -/
def FloatForm (w : Bytes) : Prop :=
  ∃ negative sign u, SignForm negative sign ∧ (DecimalFloatForm u ∨ HexFloatForm u) ∧ w = sign ++ u

/-- A word for an infinity or a NaN, in any case. -/
def IsFloatWord (w : Bytes) : Prop :=
  w.map toLower = Bytes.ascii "inf" ∨ w.map toLower = Bytes.ascii "infinity" ∨
    w.map toLower = Bytes.ascii "nan"

/-- Blanks only. -/
def Blank (u : Bytes) : Prop := u ⊆ Bytes.ascii " \t\n\x0c\r"

/-- The bytes `s` are `t` with blanks around them. -/
def Surrounded (t s : Bytes) : Prop := ∃ l r, Blank l ∧ Blank r ∧ s = l ++ t ++ r

/-! ## Tables of bytes

Tables are compared by a test that runs over them. -/

section
variable {u table other : Bytes} {p : UInt8 → Bool}

theorem subset_of_all (hu : u ⊆ table) (h : table.all other.contains) : u ⊆ other :=
  fun b hb => by simpa using List.all_eq_true.1 h b (hu hb)

theorem forall_of_any (h : table.any p = false) : ∀ b ∈ table, p b = false := by simpa using h

theorem disjoint_of_any (h : table.any other.contains = false) : ∀ b ∈ table, b ∉ other := by simpa using h

end

theorem mem_decimalDigits {b : UInt8} : b ∈ decimalDigits ↔ ∃ d, b = digitByte d := by
  have htable : decimalDigits = (List.finRange 10).map digitByte := rfl
  simp [htable, eq_comm]

theorem mem_hexDigits {b : UInt8} : b ∈ hexDigits ↔ ∃ d, b ∈ hexBytes d := by
  have hsub : hexDigits ⊆ (List.finRange 16).flatMap hexBytes := subset_of_all (List.Subset.refl _) rfl
  have hsup : (List.finRange 16).flatMap hexBytes ⊆ hexDigits := subset_of_all (List.Subset.refl _) rfl
  constructor
  · intro hb
    simpa using hsub hb
  · rintro ⟨d, hd⟩
    exact hsup (List.mem_flatMap.2 ⟨d, List.mem_finRange d, hd⟩)

/-! ## Bytes of a numeral -/

theorem spell_subset (ds : List (Fin 10)) : spell ds ⊆ decimalDigits := by
  intro b hb
  obtain ⟨d, -, rfl⟩ := List.mem_map.1 hb
  exact mem_decimalDigits.2 ⟨d, rfl⟩

theorem HexDigitsForm.eq_nil_iff {ds : List (Fin 16)} {u : Bytes} (h : HexDigitsForm ds u) :
    ds = [] ↔ u = [] := by
  rw [← List.length_eq_zero_iff, h.length_eq, List.length_eq_zero_iff]

theorem HexDigitsForm.subset {ds : List (Fin 16)} {u : Bytes} (h : HexDigitsForm ds u) : u ⊆ hexDigits := by
  induction h with
  | nil => exact List.nil_subset _
  | cons hb _ ih => exact List.cons_subset.2 ⟨mem_hexDigits.2 ⟨_, hb⟩, ih⟩

theorem SignForm.subset {negative : Bool} {sign : Bytes} (h : SignForm negative sign) :
    sign ⊆ Bytes.ascii "+-" := by
  cases h <;> exact subset_of_all (List.Subset.refl _) rfl

theorem SignedForm.subset {e : ℤ} {u : Bytes} (h : SignedForm e u) :
    u ⊆ Bytes.ascii "+-" ++ decimalDigits := by
  obtain ⟨negative, sign, ds, hsign, -, rfl, -⟩ := h
  exact List.append_subset.2 ⟨List.subset_append_of_subset_left _ hsign.subset,
    List.subset_append_of_subset_right _ (spell_subset ds)⟩

/-- An integer's text has the form of the integer. -/
theorem signedForm_intText (e : ℤ) : SignedForm e (Integer.intText e) := by
  unfold Integer.intText
  rw [natText_eq]
  split
  · refine ⟨true, _, digits e.natAbs, .minus, digits_ne_nil _, rfl, ?_⟩
    rw [number_digits, signed, if_pos rfl]
    omega
  · refine ⟨false, _, digits e.natAbs, .absent, digits_ne_nil _, rfl, ?_⟩
    rw [number_digits, signed, if_neg Bool.false_ne_true]
    omega

theorem IsHexMark.subset {mark : Bytes} (h : IsHexMark mark) : mark ⊆ Bytes.ascii "0xX" := by
  rcases h with rfl | rfl <;> exact subset_of_all (List.Subset.refl _) rfl

theorem PointForm.subset {digits u : Bytes} {k : ℕ} (h : PointForm digits k u) :
    u ⊆ digits ++ Bytes.ascii "." := by
  cases h with
  | whole hu => exact List.subset_append_of_subset_left _ hu
  | point hu hv =>
    simp only [List.append_subset]
    exact ⟨⟨List.subset_append_of_subset_left _ hu, List.subset_append_right ..⟩,
      List.subset_append_of_subset_left _ hv⟩

theorem PointForm.ne_nil {digits u : Bytes} {k : ℕ} (h : PointForm digits k u) : u ≠ [] := by
  cases h with
  | whole _ hne => exact hne
  | point => simp [Bytes.ascii]

theorem ExponentForm.subset {marks u : Bytes} {P : ℤ → Prop} (h : ExponentForm marks P u) :
    u ⊆ marks ++ (Bytes.ascii "+-" ++ decimalDigits) := by
  cases h with
  | absent => exact List.nil_subset _
  | written hmark hu =>
    exact List.cons_subset.2 ⟨List.mem_append_left _ hmark, List.subset_append_of_subset_right _ hu.subset⟩

theorem IntegerForm.subset {v : Int64} {u : Bytes} (h : IntegerForm v u) :
    u ⊆ Bytes.ascii "0123456789abcdefABCDEFxX+-" := by
  cases h with
  | decimal hsign =>
    exact List.append_subset.2 ⟨subset_of_all hsign.subset rfl, subset_of_all (spell_subset _) rfl⟩
  | hexadecimal hsign hmark _ hu =>
    simp only [List.append_subset]
    exact ⟨subset_of_all hsign.subset rfl, subset_of_all hmark.subset rfl, subset_of_all hu.subset rfl⟩

theorem DecimalFloatForm.subset {w : Bytes} (h : DecimalFloatForm w) : w ⊆ Bytes.ascii "0123456789.eE+-" := by
  obtain ⟨k, u, v, hu, hv, rfl⟩ := h
  exact List.append_subset.2 ⟨subset_of_all hu.subset rfl, subset_of_all hv.subset rfl⟩

theorem HexFloatForm.subset {w : Bytes} (h : HexFloatForm w) :
    w ⊆ Bytes.ascii "0123456789abcdefABCDEFxXpP.+-" := by
  obtain ⟨mark, _, hmark, ⟨k, u, v, hu, hv, rfl⟩, rfl⟩ := h
  simp only [List.append_subset]
  exact ⟨subset_of_all hmark.subset rfl, subset_of_all hu.subset rfl, subset_of_all hv.subset rfl⟩

theorem FloatForm.subset {w : Bytes} (h : FloatForm w) : w ⊆ Bytes.ascii "0123456789abcdefABCDEFxXpP.+-" := by
  obtain ⟨negative, sign, u, hsign, hu, rfl⟩ := h
  refine List.append_subset.2 ⟨subset_of_all hsign.subset rfl, ?_⟩
  rcases hu with hu | hu
  · exact subset_of_all hu.subset rfl
  · exact hu.subset

end LuaKernel.Numeral
