import LuaKernel.Operator.Arithmetic

/-!
# What an operator faults

An operator's outcome is settled by its domain, the readings of its operands and the divisor
(`arith_cases`): it gives an integer or a float, or it faults the kind of an operand or a zero divisor, and
nothing else (`arith_eq_error`). `Takes op v`: the kind of `v` is not at fault. It is a matter of one
operand at a time (`arith_typed_iff`): a bitwise operator takes what has an integer reading, any other what
has a float reading (`takes_iff`).
-/

namespace LuaKernel

/-! ## Domains -/

/-- The numbers that an operator works on. -/
inductive ArithDomain where
  | integer
  | float
  /-- Integers if both operands are, and otherwise floats. -/
  | either
deriving DecidableEq, Repr

def ArithOp.domain : ArithOp → ArithDomain
  | .band | .bor | .bxor | .shl | .shr | .bnot => .integer
  | .pow | .div => .float
  | .add | .sub | .mul | .mod | .idiv | .unm => .either

/-- An operator's rule is for its domain. -/
theorem ArithOp.domain_eq (op : ArithOp) :
    op.domain =
      match op.rule with
      | .integers _ => .integer
      | .floats _ => .float
      | .numbers _ _ => .either := by
  cases op <;> rfl

theorem Integer.floorDiv?_eq_none_iff {m n : Int64} : floorDiv? m n = none ↔ n = 0 := by
  unfold floorDiv?
  split
  · simp_all
  · simp only [*, iff_false]
    split <;> simp

/-- Of the rules with both sides, those of the divisions have no answer, at a zero divisor. -/
theorem ArithOp.eq_none_iff_of_rule {op : ArithOp} {f : Int64 → Int64 → Option Int64}
    {g : Binary64 → Binary64 → Binary64} (h : op.rule = .numbers f g) {m n : Int64} :
    f m n = none ↔ (op = .mod ∨ op = .idiv) ∧ n = 0 := by
  cases op <;> cases h <;> simp [Integer.modulo?, Integer.floorDiv?_eq_none_iff]

namespace Value

variable {op : ArithOp} {a b v : Value}

/-- The operator works on the integers that its operands are or convert to, and not on floats. -/
def onIntegers (op : ArithOp) (a b : Value) : Bool :=
  match op.domain with
  | .integer => true
  | .float => false
  | .either => a.isInteger && b.isInteger

/-- A division of an integer by zero. -/
def DividesByZero (op : ArithOp) (a b : Value) : Prop :=
  (op = .mod ∨ op = .idiv) ∧ a.isInteger ∧ b = .integer 0

theorem DividesByZero.onIntegers (h : DividesByZero op a b) : onIntegers op a b := by
  obtain ⟨hop, ha, rfl⟩ := h
  have hdomain : op.domain = .either := by rcases hop with rfl | rfl <;> rfl
  rw [Value.onIntegers, hdomain]
  simp only [ha]
  rfl

/-! ## Operands -/

/-- The operator has no fault with the kind of a value: it is given the value for every operand. -/
def Takes (op : ArithOp) (v : Value) : Prop := ∀ k, arith op v v ≠ .error (.arithmetic op k)

/-- The kind of the first operand that lacks a reading. -/
def culprit? (reads : Value → Bool) (a b : Value) : Option Kind :=
  if reads a = false then some a.kind else if reads b = false then some b.kind else none

theorem culprit?_eq_none_iff {reads : Value → Bool} :
    culprit? reads a b = none ↔ reads a ∧ reads b := by
  unfold culprit?
  cases reads a <;> cases reads b <;> simp

theorem integerOperand_eq (op : ArithOp) (v : Value) :
    (∃ n, v.toInteger? = some n ∧ integerOperand op v = .ok n) ∨
      v.toInteger? = none ∧ integerOperand op v = .error (.arithmetic op v.kind) := by
  unfold integerOperand
  cases v.toInteger? <;> simp

theorem floatOperand_eq (op : ArithOp) (v : Value) :
    (∃ x, v.toFloat? = some x ∧ floatOperand op v = .ok x) ∨
      v.toFloat? = none ∧ floatOperand op v = .error (.arithmetic op v.kind) := by
  unfold floatOperand
  cases v.toFloat? <;> simp

/-- Both operands have a reading, and there is a result, or one has none and is at fault. -/
theorem floatArith_cases (op : ArithOp) (g : Binary64 → Binary64 → Binary64) (a b : Value) :
    (a.toFloat?.isSome ∧ b.toFloat?.isSome ∧ ∃ x, floatArith op g a b = .ok (.float x)) ∨
      ∃ k, culprit? (·.toFloat?.isSome) a b = some k ∧ floatArith op g a b = .error (.arithmetic op k) := by
  unfold floatArith culprit?
  rcases floatOperand_eq op a with ⟨x, hx, ha⟩ | ⟨hx, ha⟩ <;>
    rcases floatOperand_eq op b with ⟨y, hy, hb⟩ | ⟨hy, hb⟩ <;>
    simp [ha, hb, hx, hy, bind, Except.bind, pure, Except.pure]

theorem integers_cases (op : ArithOp) (f : Int64 → Int64 → Int64) (a b : Value) :
    let r : Except Fault Value := do
      let m ← integerOperand op a
      let n ← integerOperand op b
      return .integer (f m n)
    (a.toInteger?.isSome ∧ b.toInteger?.isSome ∧ ∃ n, r = .ok (.integer n)) ∨
      ∃ k, culprit? (·.toInteger?.isSome) a b = some k ∧ r = .error (.arithmetic op k) := by
  unfold culprit?
  rcases integerOperand_eq op a with ⟨x, hx, ha⟩ | ⟨hx, ha⟩ <;>
    rcases integerOperand_eq op b with ⟨y, hy, hb⟩ | ⟨hy, hb⟩ <;>
    simp [ha, hb, hx, hy, bind, Except.bind, pure, Except.pure]

/-- A value has the reading that an operator asks of its operands. -/
def hasReading (op : ArithOp) (v : Value) : Bool :=
  if op.isBitwise then v.toInteger?.isSome else v.toFloat?.isSome

theorem DividesByZero.hasReading (h : DividesByZero op a b) : hasReading op a ∧ hasReading op b := by
  obtain ⟨hop, ha, rfl⟩ := h
  have hbitwise : op.isBitwise = false := by rcases hop with rfl | rfl <;> rfl
  cases a <;> simp_all [Value.hasReading, isInteger, toFloat?]

/-! ## Outcomes -/

/-- With an operand that is no integer as such, a rule with both sides works on floats. -/
theorem arith_eq_floatArith {f : Int64 → Int64 → Option Int64} {g : Binary64 → Binary64 → Binary64}
    (hrule : op.rule = .numbers f g) (hab : ∀ m n, a = .integer m → b ≠ .integer n) :
    arith op a b = floatArith op g a b := by
  simp only [arith, hrule]

theorem exists_floatArith (h : onIntegers op a b = false) :
    (∃ g, arith op a b = floatArith op g a b) ∧ hasReading op = fun v => v.toFloat?.isSome := by
  have hdomain := op.domain_eq
  cases hrule : op.rule with
  | integers f =>
    rw [hrule] at hdomain
    simp [onIntegers, hdomain] at h
  | floats g =>
    refine ⟨⟨g, by simp only [arith, hrule]⟩, ?_⟩
    funext v
    simp [hasReading, ArithOp.isBitwise, hrule]
  | numbers f g =>
    rw [hrule] at hdomain
    simp only [onIntegers, hdomain] at h
    refine ⟨⟨g, arith_eq_floatArith hrule ?_⟩, ?_⟩
    · rintro m n rfl rfl
      cases h
    · funext v
      simp [hasReading, ArithOp.isBitwise, hrule]

/-- On integers, an operator converts its operands to them or has two of them as they are. -/
theorem integers_or_native (h : onIntegers op a b) :
    (∃ f, op.rule = .integers f) ∨
      ∃ f g m n, op.rule = .numbers f g ∧ a = .integer m ∧ b = .integer n := by
  have hdomain := op.domain_eq
  cases hrule : op.rule with
  | integers f => exact .inl ⟨f, rfl⟩
  | floats g =>
    rw [hrule] at hdomain
    simp [onIntegers, hdomain] at h
  | numbers f g =>
    rw [hrule] at hdomain
    simp only [onIntegers, hdomain] at h
    refine .inr ⟨f, g, ?_⟩
    cases a <;> cases b <;> simp_all [isInteger]

/-- **The outcomes of an operator**: operands with a reading give a result or a zero divisor; without,
the first that lacks one is at fault. -/
theorem arith_cases (op : ArithOp) (a b : Value) :
    (hasReading op a ∧ hasReading op b ∧
        ((onIntegers op a b ∧ ¬DividesByZero op a b ∧ ∃ n, arith op a b = .ok (.integer n)) ∨
          (onIntegers op a b = false ∧ ∃ x, arith op a b = .ok (.float x)) ∨
          (DividesByZero op a b ∧ arith op a b = .error (.divideByZero op)))) ∨
      ∃ k, culprit? (hasReading op) a b = some k ∧ arith op a b = .error (.arithmetic op k) := by
  cases hon : onIntegers op a b with
  | false =>
    obtain ⟨⟨g, hg⟩, hreading⟩ := exists_floatArith hon
    rw [hg, hreading]
    rcases floatArith_cases op g a b with ⟨ha, hb, h⟩ | h
    · exact .inl ⟨ha, hb, .inr (.inl ⟨rfl, h⟩)⟩
    · exact .inr h
  | true =>
    rcases integers_or_native hon with ⟨f, hrule⟩ | ⟨f, g, m, n, hrule, rfl, rfl⟩
    · have hzero : ¬DividesByZero op a b := by
        rintro ⟨rfl | rfl, -⟩ <;> cases hrule
      have hreading : hasReading op = fun v => v.toInteger?.isSome := by
        funext v
        simp [hasReading, ArithOp.isBitwise, hrule]
      simp only [arith, hrule, hreading]
      rcases integers_cases op f a b with ⟨ha, hb, h⟩ | h
      · exact .inl ⟨ha, hb, .inl ⟨trivial, hzero, h⟩⟩
      · exact .inr h
    · have hreading (n : Int64) : hasReading op (.integer n) := by
        simp [hasReading, ArithOp.isBitwise, hrule, toFloat?]
      have hzero : DividesByZero op (.integer m) (.integer n) ↔ f m n = none := by
        simp [DividesByZero, ArithOp.eq_none_iff_of_rule hrule, isInteger]
      refine .inl ⟨hreading m, hreading n, ?_⟩
      rw [hzero]
      cases hf : f m n with
      | some r => simp [arith, hrule, hf]
      | none => simp [arith, hrule, hf]

theorem arith_eq_error {e : Fault} (h : arith op a b = .error e) :
    (∃ k, e = .arithmetic op k) ∨ e = .divideByZero op := by
  rcases arith_cases op a b with ⟨-, -, ⟨-, -, r, h'⟩ | ⟨-, r, h'⟩ | ⟨-, h'⟩⟩ | ⟨k, -, h'⟩ <;>
    rw [h'] at h <;> cases h
  · exact .inr rfl
  · exact .inl ⟨k, rfl⟩

theorem arith_typed_iff_hasReading :
    (∀ k, arith op a b ≠ .error (.arithmetic op k)) ↔ hasReading op a ∧ hasReading op b := by
  rcases arith_cases op a b with ⟨ha, hb, ⟨-, -, r, h⟩ | ⟨-, r, h⟩ | ⟨-, h⟩⟩ | ⟨k, hk, h⟩
  · simp [h, ha, hb]
  · simp [h, ha, hb]
  · simp [h, ha, hb]
  · rw [← culprit?_eq_none_iff, hk]
    simp [h]

theorem takes_iff : Takes op v ↔ hasReading op v := by
  unfold Takes
  rw [arith_typed_iff_hasReading, and_self]

/-- Two operands are taken together when each of them is taken. -/
theorem arith_typed_iff :
    (∀ k, arith op a b ≠ .error (.arithmetic op k)) ↔ Takes op a ∧ Takes op b := by
  rw [arith_typed_iff_hasReading, takes_iff, takes_iff]

end Value

end LuaKernel
