import LuaKernel.Proofs.Stack.BoundedList

/-!
# The stack is a bounded list

Every run of operations on a stack answers as the run of the same operations on a bounded list, and the
stack it leaves shows the list.

* `BoundedList.apply`: what each operation does to a bounded list.
* `refines_action`: one operation on the stack that stores a list is that operation on the list.
* `runAll_toStack`: so is a run, by `runAll_simulates`.
* `run_refines`: the same from an empty stack, with what can be seen of the stack; a failed operation has
  changed nothing.
-/

namespace LuaKernel

/-! ## Runs -/

section
variable {ω σ τ α : Type}

/-- Operations one after another, each on the state that the one before has left, failed or not: their
answers, and the last state. -/
def runAll (step : ω → σ → α × σ) : List ω → σ → List α × σ
  | [], s => ([], s)
  | op :: ops, s =>
    let (answer, t) := step op s
    let (answers, u) := runAll step ops t
    (answer :: answers, u)

/-- Two ways to do each operation that agree through `f` agree through `f` on runs. -/
theorem runAll_simulates {step : ω → σ → α × σ} {step' : ω → τ → α × τ} {f : τ → σ}
    (h : ∀ op t, step op (f t) = ((step' op t).1, f (step' op t).2)) (ops : List ω) (t : τ) :
    runAll step ops (f t) = ((runAll step' ops t).1, f (runAll step' ops t).2) := by
  induction ops generalizing t with
  | nil => rfl
  | cons op ops ih => simp only [runAll, h op t, ih]

end

/-! ## Operations -/

inductive StackOp where
  | push (v : Value)
  | pop
  | reserve (n : Nat)
  | absIndex (i : Int)
  | isValid (i : Int)
  | valueAt (i : Int)
  | slot (i : Int)
  | overwrite (i : Int) (v : Value)
  | store (i : Int) (v : Value)
  | rotate (i n : Int)
  | setTop (i : Int)
deriving DecidableEq, Repr

/-- What an operation answers when it does not fail. -/
inductive StackOp.Answer where
  | done
  | value (v : Value)
  | index (i : Int)
  | truth (b : Bool)
  | slot (v : Option Value)
deriving DecidableEq, Repr

def StackOp.action : StackOp → StackM Answer
  | .push v => do Stack.push v; return .done
  | .pop => return .value (← Stack.pop)
  | .reserve n => do Stack.reserve n; return .done
  | .absIndex i => return .index ((← get).absIndex i)
  | .isValid i => return .truth ((← get).isValid i)
  | .valueAt i => return .value ((← get).valueAt i)
  | .slot i => return .slot ((← get).slot? i)
  | .overwrite i v => return .truth (← Stack.overwrite i v)
  | .store i v => do Stack.store i v; return .done
  | .rotate i n => do Stack.rotate i n; return .done
  | .setTop i => do Stack.setTop i; return .done

def StackOp.perform (op : StackOp) (s : Stack) : Except Fault Answer × Stack := op.action.perform s

namespace BoundedList

/-- The result of an operation, with what it returned as an answer. -/
def answer {α : Type} (g : α → StackOp.Answer) (r : Except Fault α × BoundedList) :
    Except Fault StackOp.Answer × BoundedList := (r.1.map g, r.2)

/-- Does an operation on a bounded list. -/
def apply (op : StackOp) (b : BoundedList) : Except Fault StackOp.Answer × BoundedList :=
  match op with
  | .push v => answer (fun _ => .done) (b.push v)
  | .pop => answer .value b.pop
  | .reserve n => (.ok .done, b.reserve n)
  | .absIndex i => (.ok (.index (b.denote i)), b)
  | .isValid i => (.ok (.truth (b.place? i).isSome), b)
  | .valueAt i => (.ok (.value ((b.slot? i).getD .nil)), b)
  | .slot i => (.ok (.slot (b.slot? i)), b)
  | .overwrite i v => answer .truth (b.overwrite i v)
  | .store i v => answer (fun _ => .done) (b.store i v)
  | .rotate i n => answer (fun _ => .done) (b.rotate i n)
  | .setTop i => answer (fun _ => .done) (b.setTop i)

theorem refines_answer {α : Type} {act : StackM α} {f : BoundedList → Except Fault α × BoundedList}
    (h : act.Refines f) (g : α → StackOp.Answer) :
    (act >>= fun a => pure (g a)).Refines fun b => answer g (f b) := by
  intro b
  rw [StackM.perform_bind, h b]
  dsimp only [answer]
  rcases f b with ⟨_ | _, _⟩ <;> rfl

/-- An operation that only looks at the stack sees the list. -/
theorem refines_look {look : Stack → StackOp.Answer} {look' : BoundedList → StackOp.Answer}
    (h : ∀ b, look b.toStack = look' b) :
    (get >>= fun s => pure (look s) : StackM StackOp.Answer).Refines fun b => (.ok (look' b), b) := by
  intro b
  rw [StackM.perform_bind, StackM.perform_get]
  simp only [h b]
  rfl

/-- **One operation** on the stack that stores a list is the operation on the list. -/
theorem refines_action (op : StackOp) : op.action.Refines (apply op) := by
  cases op with
  | push v => exact refines_answer (refines_push v) _
  | pop => exact refines_answer refines_pop _
  | reserve n => exact refines_answer (refines_reserve n) _
  | absIndex i => exact refines_look fun b => by rw [absIndex_toStack]
  | isValid i => exact refines_look fun b => by rw [isValid_toStack]
  | valueAt i => exact refines_look fun b => by rw [Stack.valueAt, slot?_toStack]
  | slot i => exact refines_look fun b => by rw [slot?_toStack]
  | overwrite i v => exact refines_answer (refines_overwrite i v) _
  | store i v => exact refines_answer (refines_store i v) _
  | rotate i n => exact refines_answer (refines_rotate i n) _
  | setTop i => exact refines_answer (refines_setTop i) _

/-- **A run** on the stack that stores a list is the run on the list. -/
theorem runAll_toStack (ops : List StackOp) (b : BoundedList) :
    runAll StackOp.perform ops b.toStack = ((runAll apply ops b).1, (runAll apply ops b).2.toStack) :=
  runAll_simulates (fun op b => refines_action op b) ops b

theorem runAll_ofCapacity (ops : List StackOp) (n : Nat) : runAll StackOp.perform ops (.ofCapacity n) =
    ((runAll apply ops (empty n)).1, (runAll apply ops (empty n)).2.toStack) := by
  rw [← toStack_empty, runAll_toStack]

/-! ## Failure -/

/-- What fails leaves the list as it was. -/
def AllOrNothing {α : Type} (f : BoundedList → Except Fault α × BoundedList) : Prop :=
  ∀ b e, (f b).1 = .error e → (f b).2 = b

theorem allOrNothing_push (v : Value) : AllOrNothing (push v) := by
  intro b e
  unfold push
  split
  · intro h; cases h
  · intro _; rfl

theorem allOrNothing_pop : AllOrNothing pop := by
  intro b e
  unfold pop
  split
  · intro _; rfl
  · intro h; cases h

theorem allOrNothing_overwrite (i : Int) (v : Value) : AllOrNothing (overwrite i v) := by
  intro b e
  unfold overwrite
  split
  · intro h; cases h
  · intro h; cases h

theorem allOrNothing_store (i : Int) (v : Value) : AllOrNothing (store i v) := by
  intro b e
  unfold store
  split
  · intro _; rfl
  · intro h; cases h

theorem allOrNothing_rotate (i n : Int) : AllOrNothing (rotate i n) := by
  intro b e
  unfold rotate
  split
  · intro _; rfl
  · intro h; cases h

theorem allOrNothing_setTop (i : Int) : AllOrNothing (setTop i) := by
  intro b e
  unfold setTop
  split
  · intro _; rfl
  split
  · intro h; cases h
  · intro _; rfl

theorem allOrNothing_answer {α : Type} {f : BoundedList → Except Fault α × BoundedList}
    (h : AllOrNothing f) (g : α → StackOp.Answer) : AllOrNothing fun b => answer g (f b) := by
  intro b e he
  refine h b e ?_
  dsimp only [answer] at he
  cases hf : (f b).1 with
  | error e' => rw [hf] at he; cases he; rfl
  | ok a => rw [hf] at he; cases he

theorem allOrNothing_apply (op : StackOp) : AllOrNothing (apply op) := by
  cases op with
  | push v => exact allOrNothing_answer (allOrNothing_push v) _
  | pop => exact allOrNothing_answer allOrNothing_pop _
  | overwrite i v => exact allOrNothing_answer (allOrNothing_overwrite i v) _
  | store i v => exact allOrNothing_answer (allOrNothing_store i v) _
  | rotate i n => exact allOrNothing_answer (allOrNothing_rotate i n) _
  | setTop i => exact allOrNothing_answer (allOrNothing_setTop i) _
  | reserve n => exact nofun
  | absIndex i => exact nofun
  | isValid i => exact nofun
  | valueAt i => exact nofun
  | slot i => exact nofun

end BoundedList

open BoundedList

/-- **The stack refines a bounded list.** Whatever operations are done on a new stack, their answers are
those of the bounded list, and the stack shows the list: its values, their number, the capacity and the
rest of it. The next operation, if it fails, leaves the stack as it is, with its storage. -/
theorem run_refines (n : Nat) (ops : List StackOp) :
    let s := (runAll StackOp.perform ops (.ofCapacity n)).2
    let b := (runAll apply ops (empty n)).2
    (runAll StackOp.perform ops (.ofCapacity n)).1 = (runAll apply ops (empty n)).1 ∧
      s.values = b.values ∧ s.top = b.values.length ∧ s.capacity = b.capacity ∧
      s.free = b.capacity - b.values.length ∧
      ∀ (op : StackOp) (e : Fault), (op.perform s).1 = .error e → (op.perform s).2 = s := by
  rw [runAll_ofCapacity]
  refine ⟨rfl, values_toStack _, top_toStack _, capacity_toStack _, free_toStack _, ?_⟩
  intro op e h
  have hstep := refines_action op (runAll apply ops (empty n)).2
  unfold StackOp.perform at h ⊢
  rw [hstep] at h ⊢
  rw [allOrNothing_apply op _ e h]

/-- A third value does not fit, the two are rotated and one is cut off; with room for two more, a height
of four is still too much. -/
theorem run_refines_full :
    let ops : List StackOp := [.push (.boolean true), .push .nil, .push (.integer 3), .rotate (-2) 1,
      .setTop (-2), .reserve 2]
    let s := (runAll StackOp.perform ops (.ofCapacity 2)).2
    (runAll StackOp.perform ops (.ofCapacity 2)).1 =
        [.ok .done, .ok .done, .error .stackOverflow, .ok .done, .ok .done, .ok .done] ∧
      s.values = [.nil] ∧ s.capacity = 3 ∧
      ((StackOp.setTop 4).perform s).1 = .error .stackOverflow ∧ ((StackOp.setTop 4).perform s).2 = s := by
  intro ops s
  obtain ⟨hanswers, hvalues, -, hcapacity, -, hfail⟩ := run_refines 2 ops
  have herror : ((StackOp.setTop 4).perform s).1 = .error .stackOverflow := by
    show ((StackOp.setTop 4).perform (runAll StackOp.perform ops (.ofCapacity 2)).2).1 = _
    rw [runAll_ofCapacity, StackOp.perform, refines_action]
    rfl
  exact ⟨hanswers.trans rfl, hvalues.trans rfl, hcapacity.trans rfl, herror,
    hfail (.setTop 4) _ herror⟩

end LuaKernel
