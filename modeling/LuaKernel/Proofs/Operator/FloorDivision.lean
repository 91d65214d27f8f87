import Mathlib
import LuaKernel.Proofs.Operator.Operands

/-!
# Floor division

The machine divides toward zero and goes down by one where the remainder and the divisor have opposite
signs. That is the floor of the exact ratio, wrapped to 64 bits, and what it leaves is the exact remainder.

* `fdiv_of_isHigh`: the step down in unbounded integers. `isHigh_iff`: the test for it on words.
* `floorDiv?_eq`, `modulo?_eq`: quotient and remainder by those of unbounded integers.
* `checkedFloorDiv_eq`: the step down stays in 64 bits.
* `division_exact`: all of it, and that a quotient and its remainder make up the dividend.
-/

namespace LuaKernel.Integer

/-! ## Unbounded integers -/

section
variable {m n : ℤ}

/-- **The floor quotient and its remainder** are the ones that make up the dividend, with a remainder that
has the divisor's sign and is smaller. -/
theorem fdiv_fmod_iff {q r : ℤ} (hn : n ≠ 0) : m.fdiv n = q ∧ m.fmod n = r ↔
    r + n * q = m ∧ (r = 0 ∨ (r < 0 ↔ n < 0)) ∧ r.natAbs < n.natAbs := by
  rcases hn.lt_or_gt with hn | hn
  · rw [Int.fdiv_fmod_unique' hn]
    exact and_congr_right fun _ => by omega
  · rw [Int.fdiv_fmod_unique hn]
    exact and_congr_right fun _ => by omega

/-- The quotient toward zero is one too high: something is left that has not the divisor's sign. -/
def IsHigh (m n : ℤ) : Prop := m.tmod n ≠ 0 ∧ ¬(m.tmod n < 0 ↔ n < 0)

theorem natAbs_tmod_lt (m : ℤ) (hn : n ≠ 0) : (m.tmod n).natAbs < n.natAbs := by
  rw [Int.natAbs_tmod]
  exact Nat.mod_lt _ (Int.natAbs_pos.2 hn)

/-- **The step down** from the quotient toward zero. What it leaves has the other sign. -/
theorem fdiv_of_isHigh (h : IsHigh m n) (hn : n ≠ 0) : m.fdiv n = m.tdiv n - 1 := by
  obtain ⟨hleft, hsign⟩ := h
  have hlt := natAbs_tmod_lt m hn
  have hsum : m.tmod n + n + n * (m.tdiv n - 1) = m := by
    have := Int.tmod_add_mul_tdiv m n
    rw [mul_sub]
    omega
  exact ((fdiv_fmod_iff hn).2 ⟨hsum, by omega, by omega⟩).1

theorem fdiv_of_not_isHigh (h : ¬IsHigh m n) (hn : n ≠ 0) : m.fdiv n = m.tdiv n := by
  have hsign : m.tmod n = 0 ∨ (m.tmod n < 0 ↔ n < 0) := by
    unfold IsHigh at h
    omega
  exact ((fdiv_fmod_iff hn).2 ⟨Int.tmod_add_mul_tdiv m n, hsign, natAbs_tmod_lt m hn⟩).1

theorem floor_div_eq_fdiv (m : ℤ) (hn : n ≠ 0) : ⌊(m : ℚ) / n⌋ = m.fdiv n := by
  have hn' : (n : ℚ) ≠ 0 := Int.cast_ne_zero.2 hn
  have hsum : (m : ℚ) / n = m.fdiv n + m.fmod n / n := by
    rw [div_eq_iff hn', add_mul, div_mul_cancel₀ _ hn']
    exact_mod_cast (Int.fdiv_mul_add_fmod m n).symm
  -- The fraction that is left is not negative and less than one, whatever the signs.
  have hfraction : 0 ≤ (m.fmod n : ℚ) / n ∧ (m.fmod n : ℚ) / n < 1 := by
    rcases hn.lt_or_gt with hn | hn
    · obtain ⟨-, hlow, hhigh⟩ := (Int.fdiv_fmod_unique' (a := m) hn).1 ⟨rfl, rfl⟩
      have hneg : (n : ℚ) < 0 := Int.cast_lt_zero.2 hn
      exact ⟨div_nonneg_of_nonpos (Int.cast_nonpos.2 hhigh) hneg.le,
        (div_lt_one_of_neg hneg).2 (Int.cast_lt.2 hlow)⟩
    · obtain ⟨-, hlow, hhigh⟩ := (Int.fdiv_fmod_unique (a := m) hn).1 ⟨rfl, rfl⟩
      have hpos : (0 : ℚ) < n := Int.cast_pos.2 hn
      exact ⟨div_nonneg (Int.cast_nonneg hlow) hpos.le, (div_lt_one hpos).2 (Int.cast_lt.2 hhigh)⟩
  rw [Int.floor_eq_iff, hsum]
  exact ⟨le_add_of_nonneg_right hfraction.1, add_lt_add_right hfraction.2 _⟩

end

/-! ## Words -/

variable {a b : Int64}

theorem toInt_ne_zero (hb : b ≠ 0) : b.toInt ≠ 0 := fun h => hb (Int64.toInt_inj.1 h)

theorem neg_iff_msb (a : Int64) : a < 0 ↔ a.toBitVec.msb := by
  rw [Int64.lt_iff_toInt_lt, BitVec.msb_eq_toInt, decide_eq_true_iff]
  rfl

/-- The exclusive or of two words is negative where their signs differ. -/
theorem xor_neg_iff (a b : Int64) : a ^^^ b < 0 ↔ ¬(a < 0 ↔ b < 0) := by
  rw [neg_iff_msb, neg_iff_msb, neg_iff_msb, Int64.toBitVec_xor, BitVec.msb_xor]
  cases a.toBitVec.msb <;> cases b.toBitVec.msb <;> decide

/-- The test for the step down. -/
theorem isHigh_iff : IsHigh a.toInt b.toInt ↔ a % b ≠ 0 ∧ (a % b ^^^ b) < 0 := by
  rw [IsHigh, xor_neg_iff, ← Int64.toInt_mod, Int64.lt_iff_toInt_lt, Int64.lt_iff_toInt_lt, Ne, Ne,
    ← Int64.toInt_inj, Int64.toInt_zero]

theorem div_eq_ofInt (a b : Int64) : a / b = Int64.ofInt (a.toInt.tdiv b.toInt) := by
  rw [← Int64.toInt_inj, Int64.toInt_div, Int64.toInt_ofInt]

/-- **The quotient** is the floor of the ratio, wrapped. -/
theorem floorDiv?_eq (hb : b ≠ 0) : floorDiv? a b = some (Int64.ofInt (a.toInt.fdiv b.toInt)) := by
  have hne := toInt_ne_zero hb
  rw [floorDiv?, if_neg hb]
  simp only [div_eq_ofInt]
  split
  · rename_i h
    rw [fdiv_of_isHigh (isHigh_iff.2 h) hne, Int64.ofInt_sub]
    rfl
  · rename_i h
    rw [fdiv_of_not_isHigh (fun hhigh => h (isHigh_iff.1 hhigh)) hne]

/-- **The remainder** is the exact one. -/
theorem modulo?_eq (hb : b ≠ 0) : modulo? a b = some (Int64.ofInt (a.toInt.fmod b.toInt)) := by
  rw [modulo?, floorDiv?_eq hb, Option.map_some, Int.fmod_def, mul_comm, Int64.ofInt_sub, Int64.ofInt_mul,
    Int64.ofInt_toInt, Int64.ofInt_toInt]

theorem toInt_ofInt_fmod (a : Int64) (hb : b ≠ 0) :
    (Int64.ofInt (a.toInt.fmod b.toInt)).toInt = a.toInt.fmod b.toInt := by
  have hlow := b.le_toInt
  have hhigh := b.toInt_lt
  obtain ⟨-, -, hlt⟩ := (fdiv_fmod_iff (m := a.toInt) (toInt_ne_zero hb)).1 ⟨rfl, rfl⟩
  exact Int64.toInt_ofInt_of_le (by omega) (by omega)

/-! ## Overflow -/

/-- The floor quotient with its step down checked: `none` where 64 bits do not hold what it leads to. -/
def checkedFloorDiv (a b : Int64) : Option (Option Int64) :=
  if b = 0 then some none
  else if a % b ≠ 0 ∧ (a % b ^^^ b) < 0 then (ofInt? ((a / b).toInt - 1)).map some
  else some (some (a / b))

/-- A ratio that is not whole is half the dividend at most. -/
theorem two_mul_natAbs_tdiv_le {m n : ℤ} (h : m.tmod n ≠ 0) (hn : n ≠ 0) :
    2 * (m.tdiv n).natAbs ≤ m.natAbs := by
  have hone : n.natAbs ≠ 1 := by
    intro hone
    have hmod := Int.natAbs_tmod m n
    rw [hone, Nat.mod_one, Int.natAbs_eq_zero] at hmod
    exact h hmod
  have htwo : 2 ≤ n.natAbs := by omega
  rw [Int.natAbs_tdiv]
  calc 2 * (m.natAbs / n.natAbs) ≤ n.natAbs * (m.natAbs / n.natAbs) := Nat.mul_le_mul_right _ htwo
    _ ≤ m.natAbs := Nat.mul_div_le ..

/-- **The step down does not overflow.** -/
theorem checkedFloorDiv_eq (a b : Int64) : checkedFloorDiv a b = some (floorDiv? a b) := by
  unfold checkedFloorDiv floorDiv?
  split
  · rfl
  rename_i hb
  dsimp only
  split
  · rename_i h
    have hhalf := two_mul_natAbs_tdiv_le (isHigh_iff.2 h).1 (toInt_ne_zero hb)
    have hlow := a.le_toInt
    have hhigh := a.toInt_lt
    have hdiv : (a / b).toInt = a.toInt.tdiv b.toInt := by
      rw [div_eq_ofInt, Int64.toInt_ofInt_of_le (by omega) (by omega)]
    have hstep : (a / b - 1).toInt = (a / b).toInt - 1 := by
      rw [Int64.toInt_sub]
      exact Int.bmod_eq_of_le (by rw [hdiv, Int64.toInt_one]; omega) (by rw [hdiv, Int64.toInt_one]; omega)
    rw [ofInt?_eq_some_iff.2 hstep]
    rfl
  · rfl

/-- **The quotient wraps** in one case only. -/
theorem toInt_ofInt_fdiv_iff (hb : b ≠ 0) :
    (Int64.ofInt (a.toInt.fdiv b.toInt)).toInt = a.toInt.fdiv b.toInt ↔
      ¬(a = Int64.minValue ∧ b = -1) := by
  have hlow := a.le_toInt
  have hhigh := a.toInt_lt
  have hle := Int.natAbs_fdiv_le_natAbs a.toInt b.toInt
  constructor
  · rintro h ⟨rfl, rfl⟩
    revert h
    decide
  · intro h
    refine Int64.toInt_ofInt_of_le (by omega) ?_
    -- No quotient is above its dividend, so one that does not fit is the one above all that do.
    by_contra hover
    have hq : a.toInt.fdiv b.toInt = 2 ^ 63 := by omega
    obtain ⟨hsum, hsign, hlt⟩ := (fdiv_fmod_iff (toInt_ne_zero hb)).1 ⟨hq, rfl⟩
    refine h ⟨Int64.toInt_inj.1 ?_, Int64.toInt_inj.1 ?_⟩
    · rw [Int64.toInt_minValue]
      omega
    · rw [Int64.toInt_neg, Int64.toInt_one]
      show b.toInt = -1
      omega

/-! ## Division of values -/

/-- **A quotient times the divisor, and the remainder**, is the dividend again. -/
theorem arith_idiv_mul_add_mod (a : Int64) (hb : b ≠ 0) :
    (do
      let q ← Value.arith .idiv (.integer a) (.integer b)
      let p ← Value.arith .mul q (.integer b)
      let r ← Value.arith .mod (.integer a) (.integer b)
      Value.arith .add p r) = .ok (.integer a) := by
  have hidiv : Value.arith .idiv (.integer a) (.integer b) =
      .ok (.integer (Int64.ofInt (a.toInt.fdiv b.toInt))) := by
    simp only [Value.arith, ArithOp.rule, floorDiv?_eq hb]
  have hmod : Value.arith .mod (.integer a) (.integer b) =
      .ok (.integer (Int64.ofInt (a.toInt.fmod b.toInt))) := by
    simp only [Value.arith, ArithOp.rule, modulo?_eq hb]
  have hsum : Int64.ofInt (a.toInt.fdiv b.toInt) * b + Int64.ofInt (a.toInt.fmod b.toInt) = a := by
    have hexact := congrArg Int64.ofInt (Int.fdiv_mul_add_fmod a.toInt b.toInt)
    rwa [Int64.ofInt_add, Int64.ofInt_mul, Int64.ofInt_toInt, Int64.ofInt_toInt] at hexact
  rw [hidiv, hmod]
  show Except.ok (Value.integer (_ * b + _)) = _
  rw [hsum]

/-- **Division is exact**: the quotient is the floor of the ratio modulo `2 ^ 64`, and the remainder is what the
floor leaves, without wrapping. The quotient is the floor itself but for the least integer by `-1`. The step down
on the way to the floor does not overflow. -/
theorem division_exact (a b : Int64) :
    (floorDiv? a b = none ↔ b = 0) ∧ (modulo? a b = none ↔ b = 0) ∧
    checkedFloorDiv a b = some (floorDiv? a b) ∧
    (b ≠ 0 →
      let floor := ⌊(a.toInt : ℚ) / b.toInt⌋
      ∃ q r, floorDiv? a b = some q ∧ modulo? a b = some r ∧
        q.toInt = floor.bmod (2 ^ 64) ∧ (q.toInt = floor ↔ ¬(a = Int64.minValue ∧ b = -1)) ∧
        (a = Int64.minValue ∧ b = -1 → q = Int64.minValue) ∧
        r.toInt = a.toInt - b.toInt * floor ∧ (r = 0 ∨ (r < 0 ↔ b < 0)) ∧
        r.toInt.natAbs < b.toInt.natAbs ∧
        (do
          let q ← Value.arith .idiv (.integer a) (.integer b)
          let p ← Value.arith .mul q (.integer b)
          let r ← Value.arith .mod (.integer a) (.integer b)
          Value.arith .add p r) = .ok (.integer a)) := by
  refine ⟨floorDiv?_eq_none_iff, by rw [modulo?, Option.map_eq_none_iff, floorDiv?_eq_none_iff],
    checkedFloorDiv_eq a b, fun hb => ?_⟩
  have hfmod := toInt_ofInt_fmod a hb
  obtain ⟨-, hsign, hlt⟩ := (fdiv_fmod_iff (m := a.toInt) (toInt_ne_zero hb)).1 ⟨rfl, rfl⟩
  rw [floor_div_eq_fdiv a.toInt (toInt_ne_zero hb)]
  refine ⟨_, _, floorDiv?_eq hb, modulo?_eq hb, Int64.toInt_ofInt, toInt_ofInt_fdiv_iff hb, ?_, ?_, ?_, ?_,
    arith_idiv_mul_add_mod a hb⟩
  · rintro ⟨rfl, rfl⟩
    decide
  · rw [hfmod, Int.fmod_def]
  · rw [Int64.lt_iff_toInt_lt, Int64.lt_iff_toInt_lt, ← Int64.toInt_inj, hfmod]
    exact hsign
  · rw [hfmod]
    exact hlt

/-- The one quotient that wraps, and one that is stepped down to, with a remainder of the divisor's sign. -/
theorem division_exact_least :
    (-1 : Int64) ≠ 0 ∧ floorDiv? Int64.minValue (-1) = some Int64.minValue ∧
      (-2 : Int64) ≠ 0 ∧ ∃ q r : Int64, floorDiv? 7 (-2) = some q ∧ modulo? 7 (-2) = some r ∧
        q.toInt = -4 ∧ r.toInt = -1 := by
  have hone : (-1 : Int64) ≠ 0 := by decide
  have htwo : (-2 : Int64) ≠ 0 := by decide
  obtain ⟨-, -, -, hwraps⟩ := division_exact Int64.minValue (-1)
  obtain ⟨q, -, hq, -, -, -, hleast, -⟩ := hwraps hone
  obtain ⟨-, -, -, hsteps⟩ := division_exact 7 (-2)
  obtain ⟨q', r', hq', hr', -, hfloor, -, hleft, -⟩ := hsteps htwo
  have hratio : ⌊((7 : Int64).toInt : ℚ) / (-2 : Int64).toInt⌋ = -4 := by
    have hseven : (7 : Int64).toInt = 7 := rfl
    have hminus : (-2 : Int64).toInt = -2 := rfl
    rw [hseven, hminus]
    norm_num
  rw [hratio] at hfloor hleft
  refine ⟨hone, by rw [hq, hleast ⟨rfl, rfl⟩], htwo, q', r', hq', hr', hfloor.2 (by decide), ?_⟩
  rw [hleft]
  rfl

end LuaKernel.Integer
