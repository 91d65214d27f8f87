import Mathlib
import LuaKernel.Proofs.Numeral.Gathering
import LuaKernel.Proofs.Numeral.Pieces

/-!
# Integer numerals

The reader of integers takes the integer numerals of the grammar, with blanks around them, and reads each
as its value.

* `integerForm_of_integer?`: what is read is a numeral (soundness).
* `integer?_of_integerForm`: a numeral is read (completeness). No decimal numeral looks like a hexadecimal
  one, so the reader's choice between the two loses none.
-/

namespace LuaKernel.Numeral

theorem hexInteger?_eq_some_iff {negative : Bool} {u : Bytes} {v : Int64} :
    hexInteger? negative u = some v ↔ ∃ ds, ds ≠ [] ∧ HexDigitsForm ds u ∧
      v.toInt = (signed negative (hexNumber ds)).bmod (2 ^ 64) := by
  rw [hexInteger?_eq]
  constructor
  · intro h
    split at h
    · cases h
    rename_i hu
    obtain ⟨ns, hns, rfl⟩ := Option.map_eq_some_iff.1 h
    obtain ⟨ds, hds, rfl⟩ := digitValues?_hex_iff.1 hns
    exact ⟨ds, fun hnil => hu (List.isEmpty_iff.2 (hds.eq_nil_iff.1 hnil)), hds, Int64.toInt_ofInt⟩
  · rintro ⟨ds, hds, hu, hv⟩
    have hne : ¬u.isEmpty := fun hempty => hds (hu.eq_nil_iff.2 (List.isEmpty_iff.1 hempty))
    rw [if_neg hne, digitValues?_hex_iff.2 ⟨ds, hu, rfl⟩]
    simp only [Option.map_some, Option.some.injEq, ← Int64.toInt_inj, hv, Int64.toInt_ofInt]
    rfl

theorem decimalInteger?_eq_some_iff {negative : Bool} {u : Bytes} {v : Int64} :
    decimalInteger? negative u = some v ↔
      ∃ ds, ds ≠ [] ∧ u = spell ds ∧ v.toInt = signed negative (number ds) := by
  rw [decimalInteger?_eq, Option.bind_eq_some_iff]
  constructor
  · rintro ⟨n, hn, hv⟩
    obtain ⟨ds, hds, rfl, rfl⟩ := decimal?_eq_some_iff.1 hn
    exact ⟨ds, hds, rfl, Integer.ofInt?_eq_some_iff.1 hv⟩
  · rintro ⟨ds, hds, rfl, hv⟩
    exact ⟨_, decimal?_eq_some_iff.2 ⟨ds, hds, rfl, rfl⟩, Integer.ofInt?_eq_some_iff.2 hv⟩

/-- **What is read is a numeral** of the value that is read. -/
theorem integerForm_of_integer? {s : Bytes} {v : Int64} (h : integer? s = some v) :
    IntegerForm v s.trim := by
  obtain ⟨negative, sign, body, hsplit, hsign, htrim⟩ := exists_sign s.trim
  rw [htrim]
  simp only [integer?, hsplit] at h
  cases hhex : hexBody? body with
  | some digits =>
    rw [hhex] at h
    obtain ⟨mark, hmark, rfl⟩ := hexBody?_eq_some_iff.1 hhex
    obtain ⟨ds, hds, hdigits, hv⟩ := hexInteger?_eq_some_iff.1 h
    exact .hexadecimal hsign hmark hds hdigits hv
  | none =>
    rw [hhex] at h
    obtain ⟨ds, hds, rfl, hv⟩ := decimalInteger?_eq_some_iff.1 h
    exact .decimal hsign hds hv

/-- **A numeral is read** as its value, whatever blanks are around it. -/
theorem integer?_of_integerForm {s t : Bytes} {v : Int64} (h : IntegerForm v t) (hs : Surrounded t s) :
    integer? s = some v := by
  have hsolid : ∀ b ∈ Bytes.ascii "0123456789abcdefABCDEFxX+-", Bytes.isBlank b = false :=
    forall_of_any rfl
  unfold integer?
  rw [hs.trim_eq fun b hb => hsolid b (h.subset hb)]
  cases h with
  | decimal hsign hds hv =>
    rw [splitSign_spell hsign]
    simp only [hexBody?_of_subset (spell_subset _) (disjoint_of_any rfl)]
    exact decimalInteger?_eq_some_iff.2 ⟨_, hds, rfl, hv⟩
  | hexadecimal hsign hmark hds hu hv =>
    rw [splitSign_mark hsign hmark]
    simp only [hexBody?_eq_some_iff.2 ⟨_, hmark, rfl⟩]
    exact hexInteger?_eq_some_iff.2 ⟨_, hds, hu, hv⟩

/-- **The reader of integers recognises the integer numerals**: it answers with `v` exactly on a numeral of
the value `v` with blanks around it, and with nothing on all other bytes. The least integer is written with
a minus sign only. -/
theorem integer?_recognises (s : Bytes) (v : Int64) :
    (integer? s = some v ↔ ∃ t, Surrounded t s ∧ IntegerForm v t) ∧
      integer? (Bytes.ascii "-9223372036854775808") = some Int64.minValue ∧
      integer? (Bytes.ascii "9223372036854775808") = none := by
  refine ⟨⟨fun h => ?_, ?_⟩, rfl, rfl⟩
  · exact ⟨s.trim, surrounded_trim s, integerForm_of_integer? h⟩
  · rintro ⟨t, hs, ht⟩
    exact integer?_of_integerForm ht hs

end LuaKernel.Numeral
