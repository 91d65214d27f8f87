import LuaKernel.Machine
import LuaKernel.Proofs.Stack.Refinement

/-!
# The storage under a machine

Whatever a host does, the stack of the machine is one that stores a bounded list: no more values than
slots, and nil in every slot above them. `Keeps act`: on such a stack the action leaves such a stack, with
the capacity it had, also when it fails on the way. Every step of the host's operations keeps, and so do
sequences of them (`Keeps.bind`), so the operations do, but for the one that reserves room.

* `keeps_action`: the operations, one case each.
* `perform_toStack`, `runAll_toStack`: one operation, and by induction a run of them.
* `run_representation`: the same from a new machine, with what it says of the slots.
-/

namespace LuaKernel

/-- The host's operations that can change the stack, and the comparison. Each kind of value has a push of
its own. -/
inductive HostOp where
  | push (v : Value)
  | pop (n : Nat)
  | copy (source target : Int)
  | pushValue (i : Int)
  | replace (i : Int)
  | insert (i : Int)
  | remove (i : Int)
  | rotate (i n : Int)
  | setTop (i : Int)
  | reserve (n : Nat)
  | stringAt (i : Int)
  | stringAt? (i : Int)
  | arith (op : ArithOp)
  | compare (i j : Int) (op : CompareOp)
  | length (i : Int)
  | concat (n : Nat)
deriving DecidableEq, Repr

namespace HostOp

def action : HostOp → StackM Unit
  | .push v => Stack.push v
  | .pop n => Machine.pop n
  | .copy source target => Machine.copy source target
  | .pushValue i => Machine.pushValue i
  | .replace i => Machine.replace i
  | .insert i => Machine.insert i
  | .remove i => Machine.remove i
  | .rotate i n => Stack.rotate i n
  | .setTop i => Stack.setTop i
  | .reserve n => Stack.reserve n
  | .stringAt i => do let _ ← Machine.stringAt i
  | .stringAt? i => do let _ ← Machine.stringAt? i
  | .arith op => Machine.arith op
  | .compare i j op => do let _ ← Machine.compare i j op
  | .length i => Machine.length i
  | .concat n => Machine.concat n

def perform (op : HostOp) (s : Stack) : Except Fault Unit × Stack := op.action.perform s

end HostOp

/-! ## Actions that keep the storage -/

/-- On a stack that stores a bounded list the action leaves one of the same capacity. -/
def StackM.Keeps {α : Type} (act : StackM α) : Prop :=
  ∀ b : BoundedList, ∃ r, ∃ b' : BoundedList,
    act.perform b.toStack = (r, b'.toStack) ∧ b'.capacity = b.capacity

namespace StackM

variable {α β : Type} {act act' : StackM α}

theorem Keeps.pure (a : α) : (Pure.pure a : StackM α).Keeps := fun b => ⟨_, b, rfl, rfl⟩

theorem Keeps.throw (e : Fault) : (throw e : StackM α).Keeps := fun b => ⟨_, b, rfl, rfl⟩

theorem Keeps.get : (get : StackM Stack).Keeps := fun b => ⟨_, b, rfl, rfl⟩

theorem Keeps.ofExcept (x : Except Fault α) : (ofExcept x : StackM α).Keeps := by
  cases x with
  | error e => exact .throw e
  | ok a => exact .pure a

theorem Keeps.bind {next : α → StackM β} (h : act.Keeps) (hnext : ∀ a, (next a).Keeps) :
    (act >>= next).Keeps := by
  intro b
  obtain ⟨r, b', hact, hcap⟩ := h b
  rw [perform_bind, hact]
  cases r with
  | error e => exact ⟨_, b', rfl, hcap⟩
  | ok a =>
    obtain ⟨r, b'', hnext, hcap'⟩ := hnext a b'
    exact ⟨r, b'', hnext, hcap'.trans hcap⟩

theorem Keeps.ite {c : Prop} [Decidable c] (h : act.Keeps) (h' : act'.Keeps) :
    (if c then act else act').Keeps := by
  split
  · exact h
  · exact h'

theorem Refines.keeps {f : BoundedList → Except Fault α × BoundedList} (h : act.Refines f)
    (hcap : ∀ b, (f b).2.capacity = b.capacity) : act.Keeps :=
  fun b => ⟨_, _, h b, hcap b⟩

end StackM

open BoundedList StackM

/-! ## The stack's operations -/

theorem keeps_push (v : Value) : (Stack.push v).Keeps := by
  refine (refines_push v).keeps fun b => ?_
  unfold push
  split <;> rfl

theorem keeps_pop : Stack.pop.Keeps := by
  refine refines_pop.keeps fun b => ?_
  unfold pop
  split <;> rfl

theorem keeps_overwrite (i : Int) (v : Value) : (Stack.overwrite i v).Keeps := by
  refine (refines_overwrite i v).keeps fun b => ?_
  unfold overwrite
  split <;> rfl

theorem keeps_store (i : Int) (v : Value) : (Stack.store i v).Keeps := by
  refine (refines_store i v).keeps fun b => ?_
  unfold store
  split <;> rfl

theorem keeps_rotate (i n : Int) : (Stack.rotate i n).Keeps := by
  refine (refines_rotate i n).keeps fun b => ?_
  unfold rotate
  split <;> rfl

theorem keeps_setTop (i : Int) : (Stack.setTop i).Keeps := by
  refine (refines_setTop i).keeps fun b => ?_
  unfold setTop
  split
  · rfl
  · split <;> rfl

/-! ## The host's operations -/

namespace Machine

theorem keeps_pop (n : Nat) : (pop n).Keeps :=
  Keeps.get.bind fun _ => .ite (.throw _) (keeps_setTop _)

theorem keeps_replace (i : Int) : (replace i).Keeps :=
  LuaKernel.keeps_pop.bind fun v => keeps_store i v

theorem keeps_remove (i : Int) : (remove i).Keeps :=
  (keeps_rotate i (-1)).bind fun _ => keeps_pop 1

theorem keeps_stringAt? (i : Int) : (stringAt? i).Keeps := by
  refine Keeps.get.bind fun s => ?_
  split
  · exact .pure _
  · exact .pure _
  · split
    · exact .pure _
    · exact (keeps_overwrite _ _).bind fun _ => .pure _

theorem keeps_arith (op : ArithOp) : (arith op).Keeps := by
  refine Keeps.get.bind fun s => .ite (.throw _) ?_
  refine LuaKernel.keeps_pop.bind fun b => ?_
  have hresult (a : Value) : (ofExcept (Value.arith op a b) >>= fun r => Stack.push r : StackM Unit).Keeps :=
    (Keeps.ofExcept _).bind fun r => keeps_push r
  exact .ite ((Keeps.pure b).bind hresult) (LuaKernel.keeps_pop.bind hresult)

theorem keeps_length (i : Int) : (length i).Keeps := by
  refine Keeps.get.bind fun s => ?_
  split
  · exact keeps_push _
  · exact .throw _

theorem keeps_concat (n : Nat) : (concat n).Keeps := by
  refine Keeps.get.bind fun s => .ite (keeps_push _) (.ite (.throw _) (.ite (.pure _) ?_))
  refine (Keeps.ofExcept _).bind fun t => ?_
  exact (keeps_pop n).bind fun _ => keeps_push _

end Machine

namespace HostOp

theorem keeps_action (op : HostOp) (hop : ∀ n, op ≠ .reserve n) : op.action.Keeps := by
  cases op with
  | push v => exact keeps_push v
  | pop n => exact Machine.keeps_pop n
  | copy source target => exact Keeps.get.bind fun _ => keeps_store target _
  | pushValue i => exact Keeps.get.bind fun _ => keeps_push _
  | replace i => exact Machine.keeps_replace i
  | insert i => exact keeps_rotate i 1
  | remove i => exact Machine.keeps_remove i
  | rotate i n => exact keeps_rotate i n
  | setTop i => exact keeps_setTop i
  | reserve n => exact absurd rfl (hop n)
  | stringAt i =>
    exact Keeps.bind ((Machine.keeps_stringAt? i).bind fun _ => .pure _) fun _ => .pure _
  | stringAt? i => exact (Machine.keeps_stringAt? i).bind fun _ => .pure _
  | arith op => exact Machine.keeps_arith op
  | compare i j op => exact Keeps.bind (Keeps.get.bind fun _ => .ofExcept _) fun _ => .pure _
  | length i => exact Machine.keeps_length i
  | concat n => exact Machine.keeps_concat n

/-- **One operation** leaves a stack that stores a bounded list, of a larger capacity only if it
reserved room. -/
theorem perform_toStack (op : HostOp) (b : BoundedList) : ∃ b' : BoundedList,
    (op.perform b.toStack).2 = b'.toStack ∧ b.capacity ≤ b'.capacity ∧
      ((∀ n, op ≠ .reserve n) → b'.capacity = b.capacity) := by
  by_cases hop : ∀ n, op ≠ .reserve n
  · obtain ⟨r, b', hact, hcap⟩ := keeps_action op hop b
    exact ⟨b', by rw [perform, hact], Nat.le_of_eq hcap.symm, fun _ => hcap⟩
  · obtain ⟨n, rfl⟩ : ∃ n, op = .reserve n := by simpa using hop
    refine ⟨b.reserve n, ?_, Nat.le_max_left .., fun h => absurd rfl (h n)⟩
    show ((Stack.reserve n).perform b.toStack).2 = _
    rw [refines_reserve]

/-- **A run** leaves a stack that stores a bounded list, of no smaller capacity. -/
theorem runAll_toStack (ops : List HostOp) (b : BoundedList) : ∃ b' : BoundedList,
    (runAll perform ops b.toStack).2 = b'.toStack ∧ b.capacity ≤ b'.capacity := by
  induction ops generalizing b with
  | nil => exact ⟨b, rfl, Nat.le_refl _⟩
  | cons op ops ih =>
    obtain ⟨b', hstep, hle, -⟩ := perform_toStack op b
    obtain ⟨b'', hrun, hle'⟩ := ih b'
    refine ⟨b'', ?_, Nat.le_trans hle hle'⟩
    rw [← hrun, ← hstep]
    rfl

end HostOp

/-- The slots above the values of a stored list are nil. -/
theorem BoundedList.slots_toStack (b : BoundedList) {k : Nat} (hk : k < b.toStack.slots.size)
    (htop : b.toStack.top ≤ k) : b.toStack.slots[k] = .nil := by
  simp only [toStack, padded] at *
  simp [List.getElem_append_right htop]

/-- **The storage under a machine**, after whatever a host has done and whether it failed or not. The values
are at the front of the slots with nils behind them, and only a reservation adds slots. -/
theorem run_representation (n : Nat) (ops : List HostOp) :
    let s := (runAll HostOp.perform ops (.ofCapacity n)).2
    s.top ≤ s.slots.size ∧ (∀ k (h : k < s.slots.size), s.top ≤ k → s.slots[k] = .nil) ∧
      n ≤ s.slots.size ∧
      ∀ op : HostOp, s.slots.size ≤ (op.perform s).2.slots.size ∧
        ((∀ m, op ≠ .reserve m) → (op.perform s).2.slots.size = s.slots.size) := by
  obtain ⟨b, hrun, hle⟩ := HostOp.runAll_toStack ops (empty n)
  rw [toStack_empty] at hrun
  rw [hrun]
  refine ⟨?_, fun k hk htop => b.slots_toStack hk htop, ?_, fun op => ?_⟩
  · rw [size_toStack]
    exact b.fits
  · rw [size_toStack]
    exact hle
  · obtain ⟨b', hstep, hgrow, hsame⟩ := HostOp.perform_toStack op b
    rw [hstep, size_toStack, size_toStack]
    exact ⟨hgrow, hsame⟩

/-- An addition that fails with both operands taken, and a value pushed over one of them. -/
theorem run_representation_failed_add :
    let ops : List HostOp := [.push (.integer 1), .push (.boolean true), .arith .add, .push (.integer 2)]
    let s := (runAll HostOp.perform ops (.ofCapacity 3)).2
    ∃ h : 1 < s.slots.size, s.top ≤ 1 ∧ s.slots[1] = .nil ∧
      ((HostOp.remove 1).perform s).2.slots.size = s.slots.size := by
  intro ops s
  obtain ⟨-, hdead, -, hnext⟩ := run_representation 3 ops
  have hk : 1 < s.slots.size := by decide
  have htop : s.top ≤ 1 := by decide
  exact ⟨hk, htop, hdead 1 hk htop, (hnext (.remove 1)).2 nofun⟩

end LuaKernel
