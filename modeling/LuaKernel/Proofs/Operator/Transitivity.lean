import Mathlib
import LuaKernel.Proofs.Binary64.ValueOrder
import LuaKernel.Proofs.Operator.Order

/-!
# Where the comparisons are transitive

Two integers compare by their values and so do two floats. An integer and a float compare after the integer is
rounded, which keeps its value up to `2 ^ 53` and may change it beyond, so that one float can be equal to
several integers. Those are the only triples where equality, and less or equal, are not transitive.

* `compare_by_value`: which numbers compare by value.
* `equal_integer_float_iff`: an integer is equal to the double nearest to it, and to no other.
* `Merged a b c`: different integers `a` and `c` that the float `b` is nearest to both.
* `lessEq_trans`, `equal_trans`: the comparisons are transitive but for merged integers.
-/

namespace LuaKernel.Value

/-! ## Values of numbers -/

/-- The number that a value stands for, if it is an integer or a finite float. -/
def number? : Value → Option ℚ
  | .integer n => some n.toInt
  | .float x => if x.isFinite then some x.value else none
  | _ => none

/-- An integer that rounding to a double may change. -/
def isWide : Value → Bool
  | .integer n => 2 ^ 53 < n.toInt.natAbs
  | _ => false

section
variable {a b c : Value}

/-- Equal is less or equal either way. -/
theorem equal_iff_lessEq (h : Orderable a b) :
    equal a b = true ↔ lessEq a b = .ok true ∧ lessEq b a = .ok true := by
  have h' : Orderable b a := by simpa only [Orderable, and_comm] using h
  rw [equal_eq_order h, lessEq_eq_order h, lessEq_eq_order h', order_swap a b]
  cases order a b with
  | none => decide
  | some o => cases o <;> decide

/-- **Numbers of one kind compare by value**, and of two kinds if the integer is not wide. -/
theorem compare_by_value {p q : ℚ} (hp : a.number? = some p) (hq : b.number? = some q)
    (hkind : a.isInteger = b.isInteger ∨ a.isWide = false ∧ b.isWide = false) :
    (equal a b = true ↔ p = q) ∧ (lessEq a b = .ok true ↔ p ≤ q) := by
  have hfinite (n : Int64) := Binary64.isFinite_ofInt64 n
  have hwiden (n : Int64) (hn : (Value.integer n).isWide = false) : (Binary64.ofInt64 n).value = n.toInt :=
    Binary64.value_ofInt64 (not_lt.1 (of_decide_eq_false hn))
  cases a <;> simp only [number?, reduceCtorEq, Option.ite_none_right_eq_some, Option.some.injEq] at hp <;>
    cases b <;> simp only [number?, reduceCtorEq, Option.ite_none_right_eq_some, Option.some.injEq] at hq
  all_goals simp only [equal, lessEq, Except.ok.injEq]
  case integer.integer m n =>
    subst hp hq
    simp [Int64.le_iff_toInt_le, Int64.toInt_inj]
  case integer.float m y =>
    obtain ⟨hy, rfl⟩ := hq
    have hm := hwiden m (hkind.resolve_left (by simp [isInteger])).1
    rw [Binary64.eq_iff_value (hfinite m) hy, Binary64.le_iff_value (hfinite m) hy, hm, hp]
    exact ⟨.rfl, .rfl⟩
  case float.integer x n =>
    obtain ⟨hx, rfl⟩ := hp
    have hn := hwiden n (hkind.resolve_left (by simp [isInteger])).2
    rw [Binary64.eq_iff_value (hfinite n) hx, Binary64.le_iff_value hx (hfinite n), hn, hq]
    exact ⟨eq_comm, .rfl⟩
  case float.float x y =>
    obtain ⟨hx, rfl⟩ := hp
    obtain ⟨hy, rfl⟩ := hq
    exact ⟨Binary64.eq_iff_value hx hy, Binary64.le_iff_value hx hy⟩

/-- **An integer is equal to the double nearest to it**, and to no other. -/
theorem equal_integer_float_iff {m : Int64} {y : Binary64} :
    equal (.integer m) (.float y) = true ↔ y.IsNearest m.toInt := by
  have hnearest := Binary64.isNearest_ofInt64 m
  constructor
  · intro h
    obtain ⟨hm, hy, hord⟩ := Binary64.eq_iff.1 h
    exact hnearest.congr (Binary64.eq_iff.2 ⟨hy, hm, hord.symm⟩)
  · intro h
    exact (Binary64.eq_iff_value hnearest.finite h.finite).2 (hnearest.unique h)

/-! ## Merged integers -/

/-- Different integers `a` and `c`, and a float `b` that is the double nearest to both. -/
def Merged (a b c : Value) : Prop :=
  ∃ (m n : Int64) (y : Binary64), a = .integer m ∧ b = .float y ∧ c = .integer n ∧ m ≠ n ∧
    y.IsNearest m.toInt ∧ y.IsNearest n.toInt

theorem Merged.symm (h : Merged a b c) : Merged c b a := by
  obtain ⟨m, n, y, ha, hb, hc, hne, hm, hn⟩ := h
  exact ⟨n, m, y, hc, hb, ha, hne.symm, hn, hm⟩

/-- The float is equal to both integers, which differ. -/
theorem Merged.equal_eq (h : Merged a b c) :
    equal a b = true ∧ equal b c = true ∧ equal a c = false := by
  obtain ⟨m, n, y, rfl, rfl, rfl, hne, hm, hn⟩ := h
  refine ⟨equal_integer_float_iff.2 hm, ?_, by simpa [equal] using hne⟩
  rw [equal_symm]
  exact equal_integer_float_iff.2 hn

theorem Merged.orderable (h : Merged a b c) : Orderable a b ∧ Orderable b c := by
  obtain ⟨m, n, y, rfl, rfl, rfl, -⟩ := h
  exact ⟨.inr ⟨rfl, rfl⟩, .inr ⟨rfl, rfl⟩⟩

theorem Merged.lessEq_eq (h : Merged a b c) (hlt : less c a = .ok true) : lessEq a c = .ok false := by
  obtain ⟨m, n, y, rfl, rfl, rfl, -⟩ := h
  simpa [less, lessEq, Int64.not_le] using hlt

theorem Merged.le_natAbs {n : Int64} (h : Merged a b c) (hn : a = .integer n ∨ c = .integer n) :
    2 ^ 53 ≤ n.toInt.natAbs := by
  obtain ⟨k, l, y, rfl, rfl, rfl, hne, hk, hl⟩ := h
  have hne' : k.toInt ≠ l.toInt := fun h => hne (Int64.toInt_inj.1 h)
  rcases hn with hn | hn
  · cases hn
    exact_mod_cast hk.le_natAbs hl hne'
  · cases hn
    exact_mod_cast hl.le_natAbs hk hne'.symm

/-! ## Transitivity -/

/-- **Less or equal is transitive but for merged integers**: where integers at the ends are the wrong way
around, rounding keeps their order, so they and the float between them are at one place. -/
theorem lessEq_trans (hab : lessEq a b = .ok true) (hbc : lessEq b c = .ok true) :
    lessEq a c = .ok true ∨ Merged a b c ∧ less c a = .ok true := by
  have hmono (m n : Int64) (h : m.toInt ≤ n.toInt) :
      (Binary64.ofInt64 m).ordinal ≤ (Binary64.ofInt64 n).ordinal := Binary64.ordinal_ofInt_mono h
  have hnan (n : Int64) : (Binary64.ofInt64 n).isNaN = false := Binary64.isNaN_ofInt _
  cases a <;> cases b <;> simp only [lessEq, reduceCtorEq] at hab <;> cases c <;>
    simp only [lessEq, reduceCtorEq] at hbc
  case integer.float.integer m y p =>
    simp only [Except.ok.injEq, Binary64.le_iff, hnan, true_and] at hab hbc
    by_cases hmp : m ≤ p
    · exact .inl (by simpa [lessEq] using hmp)
    · have hlt : p < m := Int64.not_le.1 hmp
      have hle := hmono p m (Int64.lt_iff_toInt_lt.1 hlt).le
      have hm : (Binary64.ofInt64 m).eq y :=
        Binary64.eq_iff.2 ⟨hnan m, hab.1, le_antisymm hab.2 (hbc.2.trans hle)⟩
      have hp : (Binary64.ofInt64 p).eq y :=
        Binary64.eq_iff.2 ⟨hnan p, hab.1, le_antisymm (hle.trans hab.2) hbc.2⟩
      have hne : m ≠ p := fun h => hmp (h ▸ Int64.le_refl m)
      refine .inr ⟨⟨m, p, y, rfl, rfl, rfl, hne, ?_, ?_⟩, by simpa [less] using hlt⟩
      · exact equal_integer_float_iff.1 hm
      · exact equal_integer_float_iff.1 hp
  all_goals
    left
    simp only [lessEq, Except.ok.injEq, decide_eq_true_iff, Int64.le_iff_toInt_le, Binary64.le_iff, hnan,
      true_and] at hab hbc ⊢
  case integer.integer.integer m n p => exact hab.trans hbc
  case integer.integer.float m n z => exact ⟨hbc.1, (hmono m n hab).trans hbc.2⟩
  case integer.float.float m y z => exact ⟨hbc.2.1, hab.2.trans hbc.2.2⟩
  case float.integer.integer x n p => exact ⟨hab.1, hab.2.trans (hmono n p hbc)⟩
  case float.integer.float x n z => exact ⟨hab.1, hbc.1, hab.2.trans hbc.2⟩
  case float.float.integer x y p => exact ⟨hab.1, hab.2.2.trans hbc.2⟩
  case float.float.float x y z => exact ⟨hab.1, hbc.2.1, hab.2.2.trans hbc.2.2⟩
  case string.string.string s t u =>
    rw [Bytes.cmp_eq_compare] at *
    exact Std.TransCmp.isLE_trans hab hbc

theorem orderable_or_eq_of_equal (h : equal a b = true) : Orderable a b ∨ a = b := by
  cases a <;> cases b <;> simp [equal] at h <;> simp [Orderable, isString, isNumber, h]

theorem Orderable.trans (hab : Orderable a b) (hbc : Orderable b c) : Orderable a c := by
  cases b <;> simp_all [Orderable, isString, isNumber]

/-- **Equality is transitive but for merged integers.** -/
theorem equal_trans (hab : equal a b = true) (hbc : equal b c = true) : equal a c = true ∨ Merged a b c := by
  rcases orderable_or_eq_of_equal hab with hoab | rfl
  · rcases orderable_or_eq_of_equal hbc with hobc | rfl
    · obtain ⟨hab, hba⟩ := (equal_iff_lessEq hoab).1 hab
      obtain ⟨hbc, hcb⟩ := (equal_iff_lessEq hobc).1 hbc
      rcases lessEq_trans hab hbc with hac | ⟨hmerged, -⟩
      · rcases lessEq_trans hcb hba with hca | ⟨hmerged, -⟩
        · exact .inl ((equal_iff_lessEq (hoab.trans hobc)).2 ⟨hac, hca⟩)
        · exact .inr hmerged.symm
      · exact .inr hmerged
    · exact .inl hab
  · exact .inl hbc

end

/-- **The comparisons are transitive but for merged integers**: different integers with one nearest float, which
is equal to both and may stand between them. Merged integers are not below `2 ^ 53`, up to which numbers
compare by value. -/
theorem transitive_unless_merged (a b c : Value) :
    (∀ p q, a.number? = some p → b.number? = some q →
      (a.isInteger = b.isInteger ∨ a.isWide = false ∧ b.isWide = false) →
      (equal a b = true ↔ p = q) ∧ (lessEq a b = .ok true ↔ p ≤ q)) ∧
    (∀ (m : Int64) (y : Binary64), equal (.integer m) (.float y) = true ↔ y.IsNearest m.toInt) ∧
    (equal a b = true ∧ equal b c = true ∧ equal a c ≠ true ↔ Merged a b c) ∧
    (lessEq a b = .ok true ∧ lessEq b c = .ok true ∧ lessEq a c ≠ .ok true ↔
      Merged a b c ∧ less c a = .ok true) ∧
    (Merged a b c → ∀ n : Int64, a = .integer n ∨ c = .integer n → 2 ^ 53 ≤ n.toInt.natAbs) := by
  refine ⟨fun p q hp hq hkind => compare_by_value hp hq hkind, fun m y => equal_integer_float_iff, ?_, ?_,
    fun h n hn => h.le_natAbs hn⟩
  · constructor
    · rintro ⟨hab, hbc, hac⟩
      exact (equal_trans hab hbc).resolve_left hac
    · intro h
      obtain ⟨hab, hbc, hac⟩ := h.equal_eq
      exact ⟨hab, hbc, by rw [hac]; decide⟩
  · constructor
    · rintro ⟨hab, hbc, hac⟩
      exact (lessEq_trans hab hbc).resolve_left hac
    · rintro ⟨h, hlt⟩
      obtain ⟨hoab, hobc⟩ := h.orderable
      obtain ⟨hab, hbc, -⟩ := h.equal_eq
      refine ⟨((equal_iff_lessEq hoab).1 hab).1, ((equal_iff_lessEq hobc).1 hbc).1, ?_⟩
      rw [h.lessEq_eq hlt]
      decide

/-- The integers `2 ^ 53` and `2 ^ 53 + 1`, which compare by value, and the float that merges them. -/
theorem transitive_unless_merged_wide :
    let a : Value := .integer 9007199254740992
    let b : Value := .float ⟨0x4340000000000000⟩
    let c : Value := .integer 9007199254740993
    a.number? = some ((9007199254740992 : Int64).toInt : ℚ) ∧
      c.number? = some ((9007199254740993 : Int64).toInt : ℚ) ∧ a.isInteger = c.isInteger ∧
      (equal a c = true ↔ ((9007199254740992 : Int64).toInt : ℚ) = (9007199254740993 : Int64).toInt) ∧
      Merged a b c ∧ 2 ^ 53 ≤ (9007199254740993 : Int64).toInt.natAbs := by
  intro a b c
  have hfacts : equal a b = true ∧ equal b c = true ∧ equal a c ≠ true := by decide +kernel
  obtain ⟨hvalue, -⟩ := transitive_unless_merged a c b
  obtain ⟨-, -, hequal, -, hwide⟩ := transitive_unless_merged a b c
  have hmerged := hequal.1 hfacts
  exact ⟨rfl, rfl, rfl, (hvalue _ _ rfl rfl (.inl rfl)).1, hmerged, hwide hmerged _ (.inr rfl)⟩

/-- **Neither comparison is transitive**: `2 ^ 53` and `2 ^ 53 + 1` differ, and the float `2 ^ 53` is equal to
both. -/
theorem equal_not_transitive :
    let a : Value := .integer 9007199254740992
    let b : Value := .float ⟨0x4340000000000000⟩
    let c : Value := .integer 9007199254740993
    (equal a b = true ∧ equal b c = true ∧ equal a c = false) ∧
      lessEq c b = .ok true ∧ lessEq b a = .ok true ∧ lessEq c a = .ok false := by
  decide +kernel

end LuaKernel.Value
