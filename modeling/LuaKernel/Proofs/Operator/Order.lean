import Mathlib
import LuaKernel.Operator.Comparison
import LuaKernel.Proofs.Binary64.Nearest

/-!
# One order behind the comparison operators

`order a b` is where a value is to another one: before it, after it, at the same place, or nowhere when one
of them is a NaN. On two strings or two numbers the three operators all ask for it (`less_eq_order`,
`lessEq_eq_order`, `equal_eq_order`), so they agree with one another.

An integer and a float compare as doubles and two integers exactly, so `order` is no order by a key. That
being before is transitive all the same (`order_trans`) rests on widening, which keeps the order of
integers.
-/

namespace LuaKernel

/-! ## Strings -/

/-- The bytewise order is the lexicographic order of lists. -/
theorem Bytes.cmp_eq_compare (s t : Bytes) : Bytes.cmp s t = compare s t := by
  induction s generalizing t with
  | nil => cases t <;> rfl
  | cons a s ih =>
    cases t with
    | nil => rfl
    | cons b t =>
      rw [Bytes.cmp, List.compare_cons_cons, ih]
      rcases lt_trichotomy a.toNat b.toNat with h | h | h
      · have hab : a < b := UInt8.lt_iff_toNat_lt.2 h
        rw [if_pos hab, Std.compare_eq_lt.2 hab]
        rfl
      · obtain rfl : a = b := UInt8.toNat_inj.1 h
        simp
      · have hba : b < a := UInt8.lt_iff_toNat_lt.2 h
        rw [if_neg (by simpa [UInt8.lt_iff_toNat_lt] using h.le), if_pos hba, Std.compare_eq_gt.2 hba]
        rfl

/-! ## Doubles -/

namespace Binary64

variable {x y z : Binary64}

/-- Where a double is to another one. -/
def order (x y : Binary64) : Option Ordering :=
  if ordered x y then some (compare x.ordinal y.ordinal) else none

theorem order_eq_lt : order x y = some .lt ↔ x.isNaN = false ∧ y.isNaN = false ∧ x.ordinal < y.ordinal := by
  simp [order, ordered, Int.compare_eq_lt, and_assoc]

theorem order_eq_none : order x y = none ↔ x.isNaN ∨ y.isNaN := by
  simp [order, ordered, or_iff_not_imp_left]

theorem order_swap (x y : Binary64) : order y x = (order x y).map Ordering.swap := by
  unfold order ordered
  rw [Bool.and_comm]
  split
  · rw [Option.map_some, ← Std.OrientedCmp.eq_swap]
  · rfl

theorem lt_eq_order (x y : Binary64) : x.lt y = (order x y == some .lt) := by
  unfold lt order
  rw [Bool.eq_iff_iff]
  cases ordered x y <;> simp [Int.compare_eq_lt]

theorem eq_eq_order (x y : Binary64) : x.eq y = (order x y == some .eq) := by
  unfold eq order
  rw [Bool.eq_iff_iff]
  cases ordered x y <;> simp

theorem le_eq_order (x y : Binary64) : x.le y = (order x y == some .lt || order x y == some .eq) := by
  unfold le order
  rw [Bool.eq_iff_iff]
  cases ordered x y <;> simp [Int.compare_eq_lt, le_iff_lt_or_eq]

end Binary64

/-! ## Values -/

namespace Value

def isNaN : Value → Bool
  | .float x => x.isNaN
  | _ => false

/-- Two strings or two numbers. -/
def Orderable (a b : Value) : Prop := (a.isString ∧ b.isString) ∨ (a.isNumber ∧ b.isNumber)

instance (a b : Value) : Decidable (Orderable a b) := inferInstanceAs (Decidable (_ ∨ _))

/-- Where a value is to another one, if the two can be ordered. -/
def order : Value → Value → Option Ordering
  | .string s, .string t => some (Bytes.cmp s t)
  | .integer m, .integer n => some (Ord.compare m.toInt n.toInt)
  | .integer m, .float y => (Binary64.ofInt64 m).order y
  | .float x, .integer n => x.order (Binary64.ofInt64 n)
  | .float x, .float y => x.order y
  | _, _ => none

section
variable {a b c : Value}

theorem less_of_not_orderable (h : ¬Orderable a b) : less a b = .error (.comparison .lt a.kind b.kind) := by
  unfold less
  split
  case h_6 => rfl
  all_goals simp [Orderable, isString, isNumber] at h

theorem lessEq_of_not_orderable (h : ¬Orderable a b) :
    lessEq a b = .error (.comparison .le a.kind b.kind) := by
  unfold lessEq
  split
  case h_6 => rfl
  all_goals simp [Orderable, isString, isNumber] at h

theorem less_eq_order (h : Orderable a b) : less a b = .ok (order a b == some .lt) := by
  cases a <;> cases b <;> simp [Orderable, isString, isNumber] at h
  all_goals simp only [less, order, Binary64.lt_eq_order, Except.ok.injEq]
  · rw [Bool.eq_iff_iff]
    simp [Int.compare_eq_lt, Int64.lt_iff_toInt_lt]
  · rename_i s t
    cases Bytes.cmp s t <;> rfl

theorem lessEq_eq_order (h : Orderable a b) :
    lessEq a b = .ok (order a b == some .lt || order a b == some .eq) := by
  cases a <;> cases b <;> simp [Orderable, isString, isNumber] at h
  all_goals simp only [lessEq, order, Binary64.le_eq_order, Except.ok.injEq]
  · rw [Bool.eq_iff_iff]
    simp [Int.compare_eq_lt, Int64.le_iff_toInt_le, le_iff_lt_or_eq]
  · rename_i s t
    cases Bytes.cmp s t <;> rfl

theorem order_swap (a b : Value) : order b a = (order a b).map Ordering.swap := by
  cases a <;> cases b <;> simp only [order, Option.map_some, Option.map_none]
  · rw [← Std.OrientedCmp.eq_swap]
  · exact Binary64.order_swap ..
  · exact Binary64.order_swap ..
  · exact Binary64.order_swap ..
  · rw [Bytes.cmp_eq_compare, Bytes.cmp_eq_compare, ← Std.OrientedCmp.eq_swap]

theorem equal_eq_order (h : Orderable a b) : equal a b = (order a b == some .eq) := by
  cases a <;> cases b <;> simp [Orderable, isString, isNumber] at h
  all_goals simp only [equal, order, Binary64.eq_eq_order]
  · rw [Bool.eq_iff_iff]
    simp [Int64.toInt_inj]
  · rw [Binary64.order_swap]
    rename_i x n
    cases x.order (Binary64.ofInt64 n) with
    | none => rfl
    | some o => cases o <;> rfl
  · rw [Bool.eq_iff_iff]
    simp [Bytes.cmp_eq_compare, Std.LawfulEqCmp.compare_eq_iff_eq]

theorem order_eq_none (h : Orderable a b) : order a b = none ↔ a.isNaN || b.isNaN := by
  cases a <;> cases b <;> simp [Orderable, isString, isNumber] at h
  all_goals simp [order, isNaN, Binary64.order_eq_none, Binary64.ofInt64, Binary64.isNaN_ofInt]

theorem equal_symm (a b : Value) : equal a b = equal b a := by
  by_cases h : Orderable a b
  · have h' : Orderable b a := by
      simpa only [Orderable, and_comm] using h
    rw [equal_eq_order h, equal_eq_order h', order_swap a b]
    cases order a b with
    | none => rfl
    | some o => cases o <;> rfl
  · -- Of what cannot be ordered, only booleans can be equal and differ in content.
    cases a <;> cases b <;> simp [Orderable, isString, isNumber] at h <;> simp only [equal]
    exact BEq.comm

/-- **Being before is transitive.** With integers at the ends and a float between them the order of the
doubles is strict, so the integers cannot be the other way around. -/
theorem order_trans (hab : order a b = some .lt) (hbc : order b c = some .lt) : order a c = some .lt := by
  have hmono (m n : Int64) (h : m.toInt ≤ n.toInt) :
      (Binary64.ofInt64 m).ordinal ≤ (Binary64.ofInt64 n).ordinal := Binary64.ordinal_ofInt_mono h
  have hnan (n : Int64) : (Binary64.ofInt64 n).isNaN = false := Binary64.isNaN_ofInt _
  cases a <;> cases b <;> simp only [order, reduceCtorEq] at hab <;> cases c <;>
    simp only [order, reduceCtorEq] at hbc
  all_goals simp only [order, Option.some.injEq, Int.compare_eq_lt, Binary64.order_eq_lt, hnan,
    true_and] at hab hbc ⊢
  case integer.integer.integer m n p => exact hab.trans hbc
  case integer.integer.float m n z => exact ⟨hbc.1, (hmono m n hab.le).trans_lt hbc.2⟩
  case integer.float.integer m y p =>
    by_contra h
    exact (hmono p m (not_lt.1 h)).not_gt (hab.2.trans hbc.2)
  case integer.float.float m y z => exact ⟨hbc.2.1, hab.2.trans hbc.2.2⟩
  case float.integer.integer x n p => exact ⟨hab.1, hab.2.trans_le (hmono n p hbc.le)⟩
  case float.integer.float x n z => exact ⟨hab.1, hbc.1, hab.2.trans hbc.2⟩
  case float.float.integer x y p => exact ⟨hab.1, hab.2.2.trans hbc.2⟩
  case float.float.float x y z => exact ⟨hab.1, hbc.2.1, hab.2.2.trans hbc.2.2⟩
  case string.string.string s t u =>
    rw [Bytes.cmp_eq_compare] at *
    exact Std.TransCmp.lt_trans hab hbc

/-- **Before, at the same place or after**: exactly one of them, or none with a NaN. -/
theorem count_order (h : Orderable a b) :
    [order a b == some .lt, order a b == some .eq, order b a == some .lt].count true =
      if a.isNaN || b.isNaN then 0 else 1 := by
  rw [order_swap a b]
  cases ho : order a b with
  | none => simp [(order_eq_none h).1 ho]
  | some o =>
    have hnan : (a.isNaN || b.isNaN) = false := by
      rw [Bool.eq_false_iff, Ne, ← order_eq_none h, ho]
      exact Option.some_ne_none o
    rw [hnan]
    cases o <;> rfl

theorem orderable_of_less {r : Bool} (h : less a b = .ok r) : Orderable a b := by
  by_contra hno
  rw [less_of_not_orderable hno] at h
  cases h

theorem less_eq_true_iff : less a b = .ok true ↔ order a b = some .lt := by
  by_cases h : Orderable a b
  · simp [less_eq_order h]
  · rw [less_of_not_orderable h]
    refine ⟨nofun, fun hlt => ?_⟩
    cases a <;> cases b <;> simp [Orderable, isString, isNumber, order] at h hlt

end

/-- **The comparison operators agree with one another** where values have an order, which two strings and two
numbers have. Of less, equal and greater one holds, and none with a NaN. -/
theorem comparisons_coherent (a b c : Value) :
    ((∃ r, less a b = .ok r) ↔ Orderable a b) ∧ ((∃ r, lessEq a b = .ok r) ↔ Orderable a b) ∧
    ((∃ r, less b a = .ok r) ↔ Orderable a b) ∧
    (¬Orderable a b → less a b = .error (.comparison .lt a.kind b.kind) ∧
      lessEq a b = .error (.comparison .le a.kind b.kind)) ∧
    (Orderable a b → lessEq a b = (less a b).map (· || equal a b)) ∧
    (∀ before after, less a b = .ok before → less b a = .ok after →
      [before, equal a b, after].count true = if a.isNaN || b.isNaN then 0 else 1) ∧
    equal a b = equal b a ∧
    (less a b = .ok true → less b c = .ok true → less a c = .ok true) := by
  have hsymm : Orderable b a ↔ Orderable a b := by simp only [Orderable, and_comm]
  refine ⟨⟨fun ⟨r, hr⟩ => orderable_of_less hr, fun h => ⟨_, less_eq_order h⟩⟩, ⟨fun ⟨r, hr⟩ => ?_,
    fun h => ⟨_, lessEq_eq_order h⟩⟩, ⟨fun ⟨r, hr⟩ => hsymm.1 (orderable_of_less hr),
    fun h => ⟨_, less_eq_order (hsymm.2 h)⟩⟩,
    fun h => ⟨less_of_not_orderable h, lessEq_of_not_orderable h⟩, fun h => ?_, fun p q hp hq => ?_,
    equal_symm a b, fun hab hbc => ?_⟩
  · by_contra h
    rw [lessEq_of_not_orderable h] at hr
    cases hr
  · rw [lessEq_eq_order h, less_eq_order h, equal_eq_order h]
    rfl
  · have h := orderable_of_less hp
    rw [less_eq_order h] at hp
    rw [less_eq_order (hsymm.2 h)] at hq
    cases hp
    cases hq
    rw [equal_eq_order h]
    exact count_order h
  · rw [less_eq_true_iff] at *
    exact order_trans hab hbc

/-- Two integers that are no doubles, and a double between them: `2 ^ 53 + 1`, `2 ^ 53 + 2` and
`2 ^ 53 + 5`. -/
theorem comparisons_coherent_wide :
    let a : Value := .integer 9007199254740993
    let b : Value := .float ⟨0x4340000000000001⟩
    let c : Value := .integer 9007199254740997
    less a b = .ok true ∧ less b c = .ok true ∧ less a c = .ok true ∧
      [true, equal a b, false].count true = 1 := by
  intro a b c
  obtain ⟨-, -, -, -, -, hone, -, htrans⟩ := comparisons_coherent a b c
  have hab : less a b = .ok true := by decide +kernel
  have hba : less b a = .ok false := by decide +kernel
  have hbc : less b c = .ok true := by decide +kernel
  exact ⟨hab, hbc, htrans hab hbc, (hone _ _ hab hba).trans (by decide +kernel)⟩

end Value

end LuaKernel
