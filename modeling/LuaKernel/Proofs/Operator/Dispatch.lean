import LuaKernel.Proofs.Operator.Operands

/-!
# Operators by domain

An operator applied by way of its domain: the domain says which numbers the operands become, and then one
side of the operator's rule is asked for. A rule need not have that side; that it is asked for one it does
not have is a `Gap`.

* `run_dispatch`: no gap is come upon, and the outcome is that of `arith`.
* `arith_outcome`: when an operator gives an integer, a float, a zero divisor or an operand at fault.
-/

namespace LuaKernel.Value

/-- A side that an operator's rule lacks. -/
inductive Gap where
  | integers (op : ArithOp)
  | floats (op : ArithOp)
deriving DecidableEq, Repr

/-- A computation that can fail, and in which there must be no gap. -/
abbrev Dispatch := ExceptT Fault (Except Gap)

def integerSide (op : ArithOp) (m n : Int64) : Dispatch Int64 :=
  match op.rule with
  | .integers f => return f m n
  | .numbers f _ =>
    match f m n with
    | some r => return r
    | none => throw (.divideByZero op)
  | .floats _ => throwThe Gap (.integers op)

def floatSide (op : ArithOp) (x y : Binary64) : Dispatch Binary64 :=
  match op.rule with
  | .floats g => return g x y
  | .numbers _ g => return g x y
  | .integers _ => throwThe Gap (.floats op)

def dispatchFloats (op : ArithOp) (a b : Value) : Dispatch Value := do
  let x ← MonadExcept.ofExcept (floatOperand op a)
  let y ← MonadExcept.ofExcept (floatOperand op b)
  return .float (← floatSide op x y)

/-- Applies an operator by its domain. -/
def dispatch (op : ArithOp) (a b : Value) : Dispatch Value :=
  match op.domain with
  | .integer => do
    let m ← MonadExcept.ofExcept (integerOperand op a)
    let n ← MonadExcept.ofExcept (integerOperand op b)
    return .integer (← integerSide op m n)
  | .float => dispatchFloats op a b
  | .either =>
    match a, b with
    | .integer m, .integer n => return .integer (← integerSide op m n)
    | _, _ => dispatchFloats op a b

variable {op : ArithOp} {a b : Value}

theorem run_dispatchFloats {g : Binary64 → Binary64 → Binary64}
    (h : ∀ x y, floatSide op x y = pure (g x y)) :
    (dispatchFloats op a b).run = .ok (floatArith op g a b) := by
  unfold dispatchFloats floatArith
  simp only [h]
  cases floatOperand op a <;> cases floatOperand op b <;> rfl

/-- **No gap**: a domain asks for a side that the rule has. -/
theorem run_dispatch (op : ArithOp) (a b : Value) : (dispatch op a b).run = .ok (arith op a b) := by
  have hdomain := op.domain_eq
  cases hrule : op.rule with
  | integers f =>
    simp only [hrule] at hdomain
    simp only [dispatch, hdomain, arith, hrule, integerSide]
    cases integerOperand op a <;> cases integerOperand op b <;> rfl
  | floats g =>
    simp only [hrule] at hdomain
    simp only [dispatch, hdomain, arith, hrule]
    exact run_dispatchFloats fun x y => by simp only [floatSide, hrule]
  | numbers f g =>
    simp only [hrule] at hdomain
    by_cases hnative : ∃ m n, a = .integer m ∧ b = .integer n
    · obtain ⟨m, n, rfl, rfl⟩ := hnative
      simp only [dispatch, hdomain, arith, hrule, integerSide]
      cases f m n <;> rfl
    · have hab : ∀ m n, a = .integer m → b ≠ .integer n := fun m n ha hb => hnative ⟨m, n, ha, hb⟩
      have hdispatch : dispatch op a b = dispatchFloats op a b := by simp only [dispatch, hdomain]
      rw [hdispatch, arith_eq_floatArith hrule hab]
      exact run_dispatchFloats fun x y => by simp only [floatSide, hrule]

/-! ## Outcomes -/

theorem hasReading_iff_toInteger? (h : onIntegers op a b) :
    hasReading op a ∧ hasReading op b ↔ a.toInteger?.isSome ∧ b.toInteger?.isSome := by
  rcases integers_or_native h with ⟨f, hrule⟩ | ⟨f, g, m, n, hrule, rfl, rfl⟩
  · simp [hasReading, ArithOp.isBitwise, hrule]
  · simp [hasReading, ArithOp.isBitwise, hrule, toInteger?, toFloat?]

theorem arith_eq_integer_iff : (∃ n, arith op a b = .ok (.integer n)) ↔
    onIntegers op a b ∧ (hasReading op a ∧ hasReading op b) ∧ ¬DividesByZero op a b := by
  rcases arith_cases op a b with ⟨ha, hb, ⟨hon, hzero, n, h⟩ | ⟨hon, x, h⟩ | ⟨hzero, h⟩⟩ | ⟨k, hk, h⟩
  · simp [h, hon, ha, hb, hzero]
  · simp [h, hon]
  · simp [h, hzero]
  · simp [h, ← culprit?_eq_none_iff, hk]

theorem arith_eq_float_iff : (∃ x, arith op a b = .ok (.float x)) ↔
    ¬onIntegers op a b ∧ hasReading op a ∧ hasReading op b := by
  rcases arith_cases op a b with ⟨ha, hb, ⟨hon, hzero, n, h⟩ | ⟨hon, x, h⟩ | ⟨hzero, h⟩⟩ | ⟨k, hk, h⟩
  · simp [h, hon]
  · simp [h, hon, ha, hb]
  · simp [h, hzero.onIntegers]
  · simp [h, ← culprit?_eq_none_iff, hk]

theorem arith_eq_divideByZero_iff {op' : ArithOp} :
    arith op a b = .error (.divideByZero op') ↔ op' = op ∧ DividesByZero op a b := by
  rcases arith_cases op a b with ⟨ha, hb, ⟨hon, hzero, n, h⟩ | ⟨hon, x, h⟩ | ⟨hzero, h⟩⟩ | ⟨k, hk, h⟩
  · simp [h, hzero]
  · have hzero : ¬DividesByZero op a b := fun hzero => by simp [hzero.onIntegers] at hon
    simp [h, hzero]
  · simp [h, hzero, eq_comm]
  · have hzero : ¬DividesByZero op a b := fun hzero => by
      rw [culprit?_eq_none_iff.2 hzero.hasReading] at hk
      cases hk
    simp [h, hzero]

theorem arith_eq_arithmetic_iff {op' : ArithOp} {k : Kind} :
    arith op a b = .error (.arithmetic op' k) ↔ op' = op ∧ culprit? (hasReading op) a b = some k := by
  rcases arith_cases op a b with ⟨ha, hb, hcases⟩ | ⟨k', hk, h⟩
  · have hnone := culprit?_eq_none_iff.2 ⟨ha, hb⟩
    rcases hcases with ⟨-, -, n, h⟩ | ⟨-, x, h⟩ | ⟨-, h⟩ <;> simp [h, hnone]
  · simp [h, hk, eq_comm]

/-- **The outcome of an operator** is an integer, a float, a zero divisor or an operand at fault, each under one
condition on the operands; dispatching by the operator's domain comes upon no gap and has the same outcome. -/
theorem arith_outcome (op : ArithOp) (a b : Value) :
    ((∃ n, arith op a b = .ok (.integer n)) ∨ (∃ x, arith op a b = .ok (.float x)) ∨
      arith op a b = .error (.divideByZero op) ∨ ∃ k, arith op a b = .error (.arithmetic op k)) ∧
    ((∃ n, arith op a b = .ok (.integer n)) ↔
      onIntegers op a b ∧ a.toInteger?.isSome ∧ b.toInteger?.isSome ∧ ¬DividesByZero op a b) ∧
    ((∃ x, arith op a b = .ok (.float x)) ↔
      ¬onIntegers op a b ∧ a.toFloat?.isSome ∧ b.toFloat?.isSome) ∧
    (∀ op', arith op a b = .error (.divideByZero op') ↔ op' = op ∧ DividesByZero op a b) ∧
    (∀ op' k, arith op a b = .error (.arithmetic op' k) ↔
      op' = op ∧ culprit? (hasReading op) a b = some k) ∧
    (dispatch op a b).run = .ok (arith op a b) := by
  refine ⟨?_, ?_, ?_, fun _ => arith_eq_divideByZero_iff, fun _ _ => arith_eq_arithmetic_iff,
    run_dispatch op a b⟩
  · rcases arith_cases op a b with ⟨-, -, ⟨-, -, h⟩ | ⟨-, h⟩ | ⟨-, h⟩⟩ | ⟨k, -, h⟩
    · exact .inl h
    · exact .inr (.inl h)
    · exact .inr (.inr (.inl h))
    · exact .inr (.inr (.inr ⟨k, h⟩))
  · rw [arith_eq_integer_iff]
    refine and_congr_right fun hon => ?_
    rw [hasReading_iff_toInteger? hon, and_assoc]
  · rw [arith_eq_float_iff]
    refine and_congr_right fun hon => ?_
    rw [(exists_floatArith (by simpa using hon)).2]

end LuaKernel.Value
