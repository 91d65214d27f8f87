import Mathlib
import LuaKernel.Instruction.Listing
import LuaKernel.Proofs.Instruction.Layouts
import LuaKernel.Proofs.Numeral.Floats

/-!
# Listings are faithful

A listing says what an instruction does and nothing else: two instructions are listed alike if and only if
they have the same opcode and agree on the operands that it uses, or have no opcode and are the same word
(`listing_eq_iff`).

The parts of a listing can be told from it, because no part has a blank in it (`listing_eq_listing_iff`). Each
part can be told from the others and be read again: a mnemonic belongs to one opcode (`mnemonic_injective`), a
number's text reads as the number (`signedDecimal?_intText`), and so does a word's, in hexadecimal
(`hexNumber?_wordText`). A constant is shown as a negative number, so it is no register
(`registerOrConstantNumber_inj`).
-/

namespace LuaKernel

open Numeral

/-- What can be read again is written in different ways. -/
theorem injective_of_reads {α β : Type} {write : α → β} (read : β → Option α)
    (h : ∀ a, read (write a) = some a) : Function.Injective write := by
  intro a b hab
  apply Option.some.inj
  rw [← h a, hab, h]

/-! ## Texts of numbers -/

namespace Numeral

theorem signedDecimal?_intText (e : ℤ) : signedDecimal? (Integer.intText e) = some e :=
  signedDecimal?_eq_some_iff.2 (signedForm_intText e)

theorem intText_injective : Function.Injective Integer.intText :=
  injective_of_reads signedDecimal? signedDecimal?_intText

/-- The number that hexadecimal digits stand for. -/
def hexNumber? (s : Bytes) : Option ℕ := (digitValues? hexValue? s).map (ofDigits 16)

theorem hexNumber?_append_singleton {s : Bytes} {b : UInt8} {n d : ℕ} (hs : hexNumber? s = some n)
    (hb : hexValue? b = some d) : hexNumber? (s ++ [b]) = some (n * 16 + d) := by
  obtain ⟨ds, hds, rfl⟩ := Option.map_eq_some_iff.1 hs
  unfold digitValues? at hds
  have hread : digitValues? hexValue? (s ++ [b]) = some (ds ++ [d]) := by
    simp [digitValues?, hds, hb]
  rw [hexNumber?, hread, Option.map_some, ofDigits, List.foldl_append]
  rfl

theorem hexNumber?_cons_zero (s : Bytes) : hexNumber? ('0'.toUInt8 :: s) = hexNumber? s := by
  have hzero : hexValue? '0'.toUInt8 = some 0 := rfl
  unfold hexNumber? digitValues?
  rw [List.mapM_cons, hzero]
  cases s.mapM hexValue? <;> rfl

theorem hexValue?_digitChar (d : Fin 16) : hexValue? (Nat.digitChar d).toUInt8 = some d.val := by
  decide +revert

theorem hexNumber?_toDigits (n : ℕ) : hexNumber? ((Nat.toDigits 16 n).map Char.toUInt8) = some n := by
  induction n using Nat.strongRecOn with
  | ind n ih =>
    rcases Nat.lt_or_ge n 16 with h | h
    · have hn := hexValue?_digitChar ⟨n, h⟩
      rw [Nat.toDigits_of_lt_base h]
      exact (hexNumber?_append_singleton (s := []) (n := 0) rfl hn).trans (by rw [Nat.zero_mul, Nat.zero_add])
    · have hd : hexValue? (Nat.digitChar (n % 16)).toUInt8 = some (n % 16) :=
        hexValue?_digitChar ⟨n % 16, Nat.mod_lt _ (by norm_num)⟩
      rw [Nat.toDigits_of_base_le (by norm_num) h, List.map_append]
      refine (hexNumber?_append_singleton (ih (n / 16) (by omega)) hd).trans ?_
      rw [Nat.div_add_mod']

end Numeral

/-! ## The parts of a listing -/

theorem Opcode.mem_all (op : Opcode) : op ∈ all := List.mem_of_getElem? op.all_getElem?

namespace Instruction

theorem hexNumber?_wordText (w : UInt32) : hexNumber? (wordText w) = some w.toNat := by
  rw [wordText, List.leftpad, ← hexNumber?_toDigits]
  -- However many zeros stand in front, they are read as none.
  generalize 8 - ((Nat.toDigits 16 w.toNat).map Char.toUInt8).length = zeros
  induction zeros with
  | zero => rfl
  | succ k ih => rw [List.replicate_succ, List.cons_append, hexNumber?_cons_zero, ih]

theorem wordText_injective : Function.Injective wordText := by
  refine injective_of_reads (fun s => (hexNumber? s).map UInt32.ofNat) fun w => ?_
  rw [hexNumber?_wordText, Option.map_some, UInt32.ofNat_toNat]

/-- What stands between the parts. -/
def blank : UInt8 := 0x20

theorem blank_notMem_intText (e : ℤ) : blank ∉ Integer.intText e := by
  intro h
  have hall : ∀ b ∈ Bytes.ascii "+-" ++ decimalDigits, b ∉ [blank] := disjoint_of_any rfl
  exact hall blank ((signedForm_intText e).subset h) (List.mem_singleton_self _)

theorem blank_notMem_wordText (w : UInt32) : blank ∉ wordText w := by
  intro h
  have hall : ∀ b ∈ hexDigits, b ∉ [blank] := disjoint_of_any rfl
  have hread : (digitValues? hexValue? (wordText w)).isSome := by
    obtain ⟨ds, hds, -⟩ := Option.map_eq_some_iff.1 (hexNumber?_wordText w)
    exact Option.isSome_of_eq_some hds
  exact hall blank (isSome_hexDigits_iff.1 hread h) (List.mem_singleton_self _)

theorem blank_notMem_mnemonic (op : Opcode) : blank ∉ Bytes.ascii op.info.mnemonic := by
  have hall : Opcode.all.all fun op => !(Bytes.ascii op.info.mnemonic).contains blank := by decide +kernel
  simpa using List.all_eq_true.1 hall op op.mem_all

/-- An opcode by its mnemonic. -/
def ofMnemonic? (s : Bytes) : Option Opcode := Opcode.all.find? fun op => Bytes.ascii op.info.mnemonic == s

theorem ofMnemonic?_mnemonic (op : Opcode) : ofMnemonic? (Bytes.ascii op.info.mnemonic) = some op := by
  have hall : Opcode.all.all fun op => ofMnemonic? (Bytes.ascii op.info.mnemonic) == some op := by
    decide +kernel
  simpa using List.all_eq_true.1 hall op op.mem_all

theorem mnemonic_injective : Function.Injective fun op : Opcode => Bytes.ascii op.info.mnemonic :=
  injective_of_reads ofMnemonic? ofMnemonic?_mnemonic

/-! ## From the listing to its parts -/

theorem listingParts_of_none {i : Instruction} (h : i.opcode? = none) :
    i.listingParts = [Bytes.ascii "UNKNOWN(0x" ++ wordText i.word ++ Bytes.ascii ")"] := by
  rw [listingParts, h]

theorem listingParts_of_some {i : Instruction} {op : Opcode} (h : i.opcode? = some op) :
    i.listingParts = Bytes.ascii op.info.mnemonic :: (i.listedOperands op.info).map Integer.intText := by
  rw [listingParts, h]

theorem blank_notMem_listingParts (i : Instruction) : ∀ part ∈ i.listingParts, blank ∉ part := by
  cases h : i.opcode? with
  | none =>
    have hbefore : blank ∉ Bytes.ascii "UNKNOWN(0x" := by decide
    have hafter : blank ∉ Bytes.ascii ")" := by decide
    rw [listingParts_of_none h, List.forall_mem_singleton, List.mem_append, List.mem_append, not_or, not_or]
    exact ⟨⟨hbefore, blank_notMem_wordText _⟩, hafter⟩
  | some op =>
    rw [listingParts_of_some h, List.forall_mem_cons, List.forall_mem_map]
    exact ⟨blank_notMem_mnemonic op, fun e _ => blank_notMem_intText e⟩

theorem listingParts_ne_nil (i : Instruction) : i.listingParts ≠ [] := by
  unfold listingParts
  split <;> exact List.cons_ne_nil _ _

/-- A listing is split at its blanks into its parts. -/
theorem splitOn_listing (i : Instruction) : i.listing.splitOn blank = i.listingParts :=
  List.splitOn_intercalate blank i.blank_notMem_listingParts i.listingParts_ne_nil

theorem listing_eq_listing_iff {i j : Instruction} :
    i.listing = j.listing ↔ i.listingParts = j.listingParts := by
  constructor
  · intro h
    rw [← splitOn_listing, h, splitOn_listing]
  · intro h
    rw [listing, h, listing]

/-! ## From the numbers to the operands -/

/-- The operands that an opcode uses are the same in both instructions. -/
def AgreeOn (info : OpcodeInfo) (i j : Instruction) : Prop :=
  match info.layout with
  | .abc => i.a = j.a ∧ (info.b ≠ .unused → i.b = j.b) ∧ (info.c ≠ .unused → i.c = j.c)
  | .abx => i.a = j.a ∧ (info.b ≠ .unused → i.bx = j.bx)
  | .asbx => i.a = j.a ∧ i.sbx = j.sbx
  | .ax => i.ax = j.ax

theorem constantNumber_inj {x y : ℕ} : constantNumber x = constantNumber y ↔ x = y := by
  unfold constantNumber
  omega

/-- In an operand of nine bits the mark is the highest: what is not marked is shown as it is, what is marked
as a negative number. -/
theorem registerOrConstantNumber_inj {x y : ℕ} (hx : x ≤ 511) (hy : y ≤ 511) :
    registerOrConstantNumber x = registerOrConstantNumber y ↔ x = y := by
  have hmark : constantMark = 256 := rfl
  simp only [registerOrConstantNumber, constantNumber, constantIndex, isConstant, hmark, decide_eq_true_eq]
  split <;> split <;> omega

theorem usedOperand_inj {use : OperandUse} {x y : ℕ} (hx : x ≤ 511) (hy : y ≤ 511) :
    usedOperand use x = usedOperand use y ↔ (use ≠ .unused → x = y) := by
  by_cases h : use = .unused
  · simp [usedOperand, h]
  · simp [usedOperand, h, registerOrConstantNumber_inj hx hy]

theorem length_usedOperand (use : OperandUse) (x y : ℕ) :
    (usedOperand use x).length = (usedOperand use y).length := by
  unfold usedOperand
  split <;> rfl

/-- No opcode takes a wide operand for a register. -/
theorem usedWide_inj {op : Opcode} (h : op.info.layout = .abx) {x y : ℕ} :
    usedWide op.info.b x = usedWide op.info.b y ↔ (op.info.b ≠ .unused → x = y) := by
  have hall : ∀ op ∈ Opcode.all, op.info.layout = .abx → op.info.b ≠ .register := by decide
  cases hb : op.info.b with
  | unused => simp [usedWide]
  | plain => simp [usedWide]
  | register => exact absurd hb (hall op op.mem_all h)
  | registerOrConstant => simp [usedWide, constantNumber_inj]

theorem listedOperands_eq_iff (op : Opcode) (i j : Instruction) :
    i.listedOperands op.info = j.listedOperands op.info ↔ AgreeOn op.info i j := by
  unfold listedOperands AgreeOn
  have hb := fun k : Instruction => (k.inRange_operandsIn .abc).2.1
  have hc := fun k : Instruction => (k.inRange_operandsIn .abc).2.2
  cases hlayout : op.info.layout with
  | abc =>
    have hlength := length_usedOperand op.info.b i.b j.b
    simp [List.append_eq_append_iff_of_size_eq_left hlength, usedOperand_inj (hb i) (hb j),
      usedOperand_inj (hc i) (hc j)]
  | abx => simp [usedWide_inj hlayout]
  | asbx => simp
  | ax => simp [constantNumber_inj]

theorem listedOperands_ne_nil (i : Instruction) (info : OpcodeInfo) : i.listedOperands info ≠ [] := by
  unfold listedOperands
  split <;> exact List.cons_ne_nil _ _

section
variable {i j : Instruction}

theorem listingParts_eq_iff_of_none (hi : i.opcode? = none) (hj : j.opcode? = none) :
    i.listingParts = j.listingParts ↔ i = j := by
  rw [listingParts_of_none hi, listingParts_of_none hj, List.singleton_inj, List.append_left_inj,
    List.append_right_inj, wordText_injective.eq_iff]
  cases i
  cases j
  rw [Instruction.mk.injEq]

theorem listingParts_eq_iff_of_some {op op' : Opcode} (hi : i.opcode? = some op)
    (hj : j.opcode? = some op') :
    i.listingParts = j.listingParts ↔ op = op' ∧ i.listedOperands op.info = j.listedOperands op'.info := by
  rw [listingParts_of_some hi, listingParts_of_some hj, List.cons.injEq, mnemonic_injective.eq_iff,
    (List.map_injective_iff.2 intText_injective).eq_iff]

theorem listingParts_ne {op : Opcode} (hi : i.opcode? = none) (hj : j.opcode? = some op) :
    i.listingParts ≠ j.listingParts := by
  rw [listingParts_of_none hi, listingParts_of_some hj]
  intro h
  exact j.listedOperands_ne_nil op.info (List.map_eq_nil_iff.1 (List.cons.inj h).2.symm)

end

/-- **Listings are faithful.** Two words are listed alike if and only if they are the same word with no
assigned opcode, or have one opcode and agree on each operand that it uses. -/
theorem listing_eq_iff (i j : Instruction) :
    i.listing = j.listing ↔
      (i.opcode? = none ∧ j.opcode? = none ∧ i = j) ∨
      ∃ op, i.opcode? = some op ∧ j.opcode? = some op ∧ AgreeOn op.info i j := by
  rw [listing_eq_listing_iff]
  cases hi : i.opcode? with
  | none =>
    cases hj : j.opcode? with
    | none => simp [listingParts_eq_iff_of_none hi hj]
    | some op => simp [listingParts_ne hi hj]
  | some op =>
    cases hj : j.opcode? with
    | none => simp [(listingParts_ne hj hi).symm]
    | some op' =>
      rw [listingParts_eq_iff_of_some hi hj]
      constructor
      · intro ⟨hop, hlisted⟩
        cases hop
        exact .inr ⟨op, rfl, rfl, (listedOperands_eq_iff op i j).1 hlisted⟩
      · intro h
        rcases h with ⟨h, -⟩ | ⟨_, hop, hop', hagree⟩
        · cases h
        · cases hop
          cases hop'
          exact ⟨rfl, (listedOperands_eq_iff op i j).2 hagree⟩

end Instruction

end LuaKernel
