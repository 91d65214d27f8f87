import LuaKernel.Proofs.Machine.ListEffects
import LuaKernel.Proofs.Operator.Operands

/-!
# What a failed operation leaves

Of all that a host can do, `replace` and `arith` alone may fail with the stack changed. Every other
operation has its last chance to fail before its first change.

* `allOrNothing_host`: the other operations leave the list as it was when they fail.
* `arith_of_operands`: an operator with its operands on top takes them, whatever comes of it.
* `run_failure`: the same on every stack that a host can reach, and which faults cannot occur.
-/

namespace LuaKernel

/-- The operands of an operator as they lie on top: the right one last, and no other for a unary
operator. -/
def ArithOp.operands (op : ArithOp) (x y : Value) : List Value := if op.isUnary then [y] else [x, y]

theorem ArithOp.length_operands (op : ArithOp) (x y : Value) : (op.operands x y).length = op.arity := by
  unfold operands arity
  split <;> rfl

namespace BoundedList

/-! ## Operations that fail before a change -/

theorem allOrNothing_discard (n : Nat) : AllOrNothing (discard n) := by
  intro b e
  unfold discard
  split
  · intro _; rfl
  · intro h; cases h

theorem allOrNothing_remove (i : Int) : AllOrNothing (remove i) := by
  intro b e
  unfold remove
  split
  · intro _; rfl
  · intro h; cases h

theorem allOrNothing_length (i : Int) : AllOrNothing (length i) := by
  intro b e
  unfold length
  split
  · exact allOrNothing_push _ b e
  · intro _; rfl

theorem allOrNothing_concat (n : Nat) : AllOrNothing (concat n) := by
  intro b e
  unfold concat
  split
  · exact allOrNothing_push _ b e
  split
  · intro _; rfl
  split
  · intro h; cases h
  split
  · intro h; cases h
  · intro _; rfl

theorem allOrNothing_host {op : HostOp} (hreplace : ∀ i, op ≠ .replace i)
    (harith : ∀ o, op ≠ .arith o) : AllOrNothing (host op) := by
  cases op with
  | push v => exact allOrNothing_push v
  | pop n => exact allOrNothing_discard n
  | copy source target => exact fun b => allOrNothing_store target (b.valueAt source) b
  | pushValue i => exact fun b => allOrNothing_push (b.valueAt i) b
  | replace i => exact absurd rfl (hreplace i)
  | insert i => exact allOrNothing_rotate i 1
  | remove i => exact allOrNothing_remove i
  | rotate i n => exact allOrNothing_rotate i n
  | setTop i => exact allOrNothing_setTop i
  | reserve n => exact nofun
  | stringAt i => exact nofun
  | stringAt? i => exact nofun
  | arith o => exact absurd rfl (harith o)
  | compare i j o => exact fun b e _ => rfl
  | length i => exact allOrNothing_length i
  | concat n => exact allOrNothing_concat n

/-! ## Operators -/

theorem exists_operands {op : ArithOp} {vs : List Value} (h : op.arity ≤ vs.length) :
    ∃ below x y, vs = below ++ op.operands x y ∧ (op.isUnary → x = y) := by
  unfold ArithOp.arity ArithOp.operands at *
  cases hop : op.isUnary with
  | true =>
    rw [hop] at h
    rcases List.eq_nil_or_concat vs with rfl | ⟨below, y, rfl⟩
    · simp at h
    · exact ⟨below, y, y, by simp, fun _ => rfl⟩
  | false =>
    rw [hop] at h
    rcases List.eq_nil_or_concat vs with rfl | ⟨vs, y, rfl⟩
    · simp at h
    rcases List.eq_nil_or_concat vs with rfl | ⟨below, x, rfl⟩
    · simp at h
    · exact ⟨below, x, y, by simp, nofun⟩

/-- **The operands are taken**, and the result is put in their place if there is one. -/
theorem arith_of_operands {op : ArithOp} {b : BoundedList} {below : List Value} {x y : Value}
    (h : b.values = below ++ op.operands x y) (hxy : op.isUnary → x = y) :
    (b.arith op).1 = (Value.arith op x y).map (fun _ => ()) ∧
      (b.arith op).2.values = below ++ (Value.arith op x y).toOption.toList ∧
      (b.arith op).2.capacity = b.capacity := by
  have hlen : b.values.length = below.length + op.arity := by
    rw [h, List.length_append, op.length_operands]
  have hpos := op.arity_pos
  have hx : b.values[b.values.length - op.arity] = x := by
    cases hop : op.isUnary <;> simp_all [ArithOp.operands, ArithOp.arity]
  have hy : b.values[b.values.length - 1] = y := by
    cases hop : op.isUnary <;> simp_all [ArithOp.operands, ArithOp.arity, List.getElem_append_right]
  have htake : b.values.take (b.values.length - op.arity) = below := by
    rw [hlen, Nat.add_sub_cancel, h, List.take_left]
  rw [arith, dif_pos (by omega)]
  simp only [hx, hy]
  cases Value.arith op x y with
  | error e => exact ⟨rfl, by simp [cut, withValues, htake, Except.toOption], rfl⟩
  | ok r => exact ⟨rfl, by simp [cutPush, withValues, htake, Except.toOption], rfl⟩

theorem arith_of_lt {op : ArithOp} {b : BoundedList} (h : b.values.length < op.arity) :
    b.arith op = (.error .stackUnderflow, b) := by
  rw [arith, dif_neg (by omega)]

/-- The faults of an operator on the stack: too few operands, or a fault of the operator's own. -/
theorem arith_eq_error {op : ArithOp} {b : BoundedList} {e : Fault} (h : (b.arith op).1 = .error e) :
    (b.values.length < op.arity ∧ e = .stackUnderflow) ∨
      (op.arity ≤ b.values.length ∧ ((∃ k, e = .arithmetic op k) ∨ e = .divideByZero op)) := by
  by_cases hb : op.arity ≤ b.values.length
  · obtain ⟨below, x, y, hvs, hxy⟩ := exists_operands hb
    rw [(arith_of_operands hvs hxy).1] at h
    cases hr : Value.arith op x y with
    | ok r => rw [hr] at h; cases h
    | error e' =>
      rw [hr] at h
      cases h
      exact .inr ⟨hb, Value.arith_eq_error hr⟩
  · have hb' : b.values.length < op.arity := by omega
    rw [arith_of_lt hb'] at h
    cases h
    exact .inl ⟨hb', rfl⟩

/-! ## Concatenation -/

theorem concatOperand_eq_error {v : Value} {e : Fault} (h : Machine.concatOperand v = .error e) :
    e = .concatenation v.kind := by
  unfold Machine.concatOperand at h
  split at h <;> cases h
  rfl

theorem join_eq_error {vs : List Value} {e : Fault} (h : Machine.join vs = .error e) :
    ∃ k, e = .concatenation k := by
  have hmap : vs.mapM Machine.concatOperand = .error e := by
    unfold Machine.join at h
    cases hvs : vs.mapM Machine.concatOperand with
    | error e' => rw [hvs] at h; cases h; rfl
    | ok ts => rw [hvs] at h; cases h
  clear h
  induction vs with
  | nil => cases hmap
  | cons v vs ih =>
    rw [List.mapM_cons] at hmap
    cases hv : Machine.concatOperand v with
    | error e' =>
      rw [hv] at hmap
      cases hmap
      exact ⟨_, concatOperand_eq_error hv⟩
    | ok t =>
      rw [hv] at hmap
      cases hvs : vs.mapM Machine.concatOperand with
      | error e' => rw [hvs] at hmap; cases hmap; exact ih hvs
      | ok ts => rw [hvs] at hmap; cases hmap

theorem concat_ne_stackOverflow {n : Nat} (hn : 2 ≤ n) (b : BoundedList) :
    (b.concat n).1 ≠ .error .stackOverflow := by
  unfold concat
  rw [dif_neg (by omega)]
  split
  · intro h; cases h
  rw [if_neg (by omega)]
  split
  · intro h; cases h
  · rename_i e he
    obtain ⟨k, rfl⟩ := join_eq_error he
    intro h
    cases h

end BoundedList

open BoundedList

/-- **What a failed operation leaves**: the stack as it was, but for `replace`, and for an operator that has
taken its operands. An operator and a concatenation of two values or more never lack room for their result,
which takes a place of their operands. -/
theorem run_failure (n : Nat) (ops : List HostOp) :
    let s := (runAll HostOp.perform ops (.ofCapacity n)).2
    (∀ (op : HostOp) (e : Fault), (∀ i, op ≠ .replace i) → (∀ o, op ≠ .arith o) →
      (op.perform s).1 = .error e → (op.perform s).2 = s) ∧
    (∀ op : ArithOp,
      let r := (Machine.arith op).perform s
      (r.1 = .error .stackUnderflow ↔ s.top < op.arity) ∧ (s.top < op.arity → r.2 = s) ∧
      (op.arity ≤ s.top → ∃ below x y, s.values = below ++ op.operands x y ∧ (op.isUnary → x = y) ∧
        r.1 = (Value.arith op x y).map (fun _ => ()) ∧
        r.2.values = below ++ (Value.arith op x y).toOption.toList ∧ r.2.capacity = s.capacity) ∧
      r.1 ≠ .error .stackOverflow) ∧
    (∀ m, 2 ≤ m → ((Machine.concat m).perform s).1 ≠ .error .stackOverflow) ∧
    ∀ i t, (Stack.rotate i (-1)).perform s = (.ok (), t) →
      ∃ u, (Machine.pop 1).perform t = (.ok (), u) ∧ (Machine.remove i).perform s = (.ok (), u) := by
  rw [runAll_host]
  generalize (runAll host ops (empty n)).2 = b
  refine ⟨fun op e hreplace harith h => ?_, fun op => ?_, fun m hm => ?_, fun i t h => ?_⟩
  · have hstep := refines_host op b
    unfold HostOp.perform at h ⊢
    rw [hstep] at h ⊢
    rw [allOrNothing_host hreplace harith b e h]
  · rw [refines_arith op b]
    simp only [top_toStack, values_toStack, capacity_toStack]
    refine ⟨⟨fun h => ?_, fun h => by rw [arith_of_lt h]⟩, fun h => by rw [arith_of_lt h], fun h => ?_,
      fun h => ?_⟩
    · rcases arith_eq_error h with ⟨hlt, -⟩ | ⟨-, ⟨k, hk⟩ | hk⟩
      · exact hlt
      · cases hk
      · cases hk
    · obtain ⟨below, x, y, hvs, hxy⟩ := exists_operands h
      exact ⟨below, x, y, hvs, hxy, arith_of_operands hvs hxy⟩
    · rcases arith_eq_error h with ⟨-, hk⟩ | ⟨-, ⟨k, hk⟩ | hk⟩ <;> cases hk
  · rw [refines_concat m b]
    exact concat_ne_stackOverflow hm b
  · rw [Machine.remove, StackM.perform_bind, h]
    rw [refines_rotate, rotate] at h
    cases hp : b.place? i with
    | none => rw [hp] at h; cases h
    | some k =>
      rw [hp] at h
      cases h
      have hpop := perform_pop_rotateFrom (place?_lt hp)
      exact ⟨_, hpop, hpop⟩

/-- On a full stack with a boolean on top: a concatenation fails with all in place, an addition with both
operands gone, and the value at the bottom can be removed. -/
theorem run_failure_boolean :
    let ops : List HostOp := [.push (.integer 1), .push (.boolean true)]
    let s := (runAll HostOp.perform ops (.ofCapacity 2)).2
    ((HostOp.concat 2).perform s).1 = .error (.concatenation .boolean) ∧
      ((HostOp.concat 2).perform s).2 = s ∧
      ((Machine.concat 2).perform s).1 ≠ .error .stackOverflow ∧
      (∃ below x y, s.values = below ++ [x, y] ∧
        ((Machine.arith .add).perform s).1 = (Value.arith .add x y).map (fun _ => ())) ∧
      ((Machine.arith .add).perform s).1 = .error (.arithmetic .add .boolean) ∧
      ∃ u, (Machine.remove 1).perform s = (.ok (), u) := by
  intro ops s
  obtain ⟨hfail, harith, hconcat, hremove⟩ := run_failure 2 ops
  have hconcat' : ((HostOp.concat 2).perform s).1 = .error (.concatenation .boolean) := rfl
  obtain ⟨-, -, htaken, -⟩ := harith .add
  obtain ⟨below, x, y, hvs, -, hresult, -, -⟩ := htaken (by decide)
  obtain ⟨u, -, hu⟩ := hremove 1 _ rfl
  exact ⟨hconcat', hfail _ _ nofun nofun hconcat', hconcat 2 (Nat.le_refl 2), ⟨below, x, y, hvs, hresult⟩,
    rfl, u, hu⟩

end LuaKernel
