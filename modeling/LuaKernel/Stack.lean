import LuaKernel.Fault

/-!
# The operand stack

Values sit in storage of a fixed capacity; the first `top` slots are alive, and the ones above hold nil.
Positions are named by an index: from 1 at the bottom up, or from -1 at the top down. Capacity is only
ever reserved (`Stack.reserve`), never taken by a push.

An operation is a `StackM` action. A fault does not undo what the action did before it, so what each
action leaves behind is part of its meaning.
-/

namespace LuaKernel

/-- A stack: the storage, and how many of its slots are alive. -/
structure Stack where
  slots : Array Value
  top : Nat
deriving DecidableEq, Inhabited, Repr

/-- An operation on a stack that can fail. The stack is kept on failure. -/
abbrev StackM := ExceptT Fault (StateM Stack)

/-- What an operation answers, and the stack it leaves. -/
def StackM.perform {α : Type} (act : StackM α) (s : Stack) : Except Fault α × Stack :=
  (act.run.run s).run

namespace StackM

variable {α β : Type}

@[simp] theorem perform_pure (a : α) (s : Stack) : (pure a : StackM α).perform s = (.ok a, s) := rfl

@[simp] theorem perform_throw (e : Fault) (s : Stack) :
    (throw e : StackM α).perform s = (.error e, s) := rfl

@[simp] theorem perform_get (s : Stack) : (get : StackM Stack).perform s = (.ok s, s) := rfl

@[simp] theorem perform_set (t s : Stack) : (set t : StackM PUnit).perform s = (.ok ⟨⟩, t) := rfl

/-- An action after another starts from the stack the first one leaves, and not at all after a fault. -/
theorem perform_bind (act : StackM α) (next : α → StackM β) (s : Stack) :
    (act >>= next).perform s =
      match act.perform s with
      | (.ok a, t) => (next a).perform t
      | (.error e, t) => (.error e, t) := by
  show StackM.perform (ExceptT.bind act next) s = _
  simp only [perform, ExceptT.bind, ExceptT.run, ExceptT.mk, StateT.run, bind, StateT.bind,
    ExceptT.bindCont, Id.run]
  rcases act s with ⟨_ | _, _⟩ <;> rfl

end StackM

namespace Stack

/-- The empty stack with room for `n` values. -/
def ofCapacity (n : Nat) : Stack := { slots := Array.replicate n .nil, top := 0 }

/-! ## Views -/

/-- How many values there is storage for. -/
def capacity (s : Stack) : Nat := s.slots.size

/-- How many values can be pushed. -/
def free (s : Stack) : Nat := s.slots.size - s.top

/-- The values, from the bottom up. -/
def values (s : Stack) : List Value := s.slots.toList.take s.top

/-- An index counted from the bottom: a negative one stands for its place below the top, which is zero
or less if it reaches below the bottom. -/
def absIndex (s : Stack) (i : Int) : Int := if 0 ≤ i then i else i + s.top + 1

/-- The index addresses a value. -/
def isValid (s : Stack) (i : Int) : Bool := 0 < s.absIndex i ∧ s.absIndex i ≤ s.top

/-- The slot that an index addresses. -/
def position? (s : Stack) (i : Int) : Option Nat :=
  if s.isValid i then some ((s.absIndex i).toNat - 1) else none

/-- The value at an index. -/
def slot? (s : Stack) (i : Int) : Option Value := (s.position? i).bind fun p => s.slots[p]?

/-- The value at an index, nil where there is none. -/
def valueAt (s : Stack) (i : Int) : Value := (s.slot? i).getD .nil

/-! ## Operations -/

/-- Adds storage until `n` more values fit. -/
def reserve (n : Nat) : StackM Unit :=
  modify fun s =>
    if s.free < n then { s with slots := s.slots ++ Array.replicate (n - s.free) .nil } else s

/-- Puts a value on top. -/
def push (v : Value) : StackM Unit := do
  let s ← get
  if s.top = s.slots.size then throw .stackOverflow
  else set ({ slots := s.slots.setIfInBounds s.top v, top := s.top + 1 } : Stack)

/-- Takes the value from the top and clears its slot. -/
def pop : StackM Value := do
  let s ← get
  if s.top = 0 then throw .stackUnderflow
  else
    set ({ slots := s.slots.setIfInBounds (s.top - 1) .nil, top := s.top - 1 } : Stack)
    return s.slots.getD (s.top - 1) .nil

/-- Writes the slot at an index, and says whether there is one. -/
def overwrite (i : Int) (v : Value) : StackM Bool := do
  let s ← get
  match s.position? i with
  | none => return false
  | some p =>
    set { s with slots := s.slots.setIfInBounds p v }
    return true

/-- Writes the slot at an index, which has to be valid. -/
def store (i : Int) (v : Value) : StackM Unit := do
  let written ← overwrite i v
  if written then return else throw (.invalidIndex i)

theorem perform_push (v : Value) (s : Stack) :
    (push v).perform s =
      if s.top = s.slots.size then (.error .stackOverflow, s)
      else (.ok (), { slots := s.slots.setIfInBounds s.top v, top := s.top + 1 }) := by
  simp only [push, StackM.perform_bind, StackM.perform_get]
  split <;> rfl

theorem perform_pop (s : Stack) :
    pop.perform s =
      if s.top = 0 then (.error .stackUnderflow, s)
      else (.ok (s.slots.getD (s.top - 1) .nil),
        { slots := s.slots.setIfInBounds (s.top - 1) .nil, top := s.top - 1 }) := by
  simp only [pop, StackM.perform_bind, StackM.perform_get]
  split <;> rfl

theorem perform_overwrite (i : Int) (v : Value) (s : Stack) :
    (overwrite i v).perform s =
      match s.position? i with
      | none => (.ok false, s)
      | some p => (.ok true, { s with slots := s.slots.setIfInBounds p v }) := by
  simp only [overwrite, StackM.perform_bind, StackM.perform_get]
  split <;> rfl

theorem perform_store (i : Int) (v : Value) (s : Stack) :
    (store i v).perform s =
      match s.position? i with
      | none => (.error (.invalidIndex i), s)
      | some p => (.ok (), { s with slots := s.slots.setIfInBounds p v }) := by
  simp only [store, StackM.perform_bind, perform_overwrite]
  cases s.position? i <;> rfl

/-! ## Rotation -/

/-- The array with the order of the slots from `start` up to but not including `stop` reversed. -/
def reverseRange (slots : Array Value) (start stop : Nat) : Array Value :=
  slots.extract 0 start ++ (slots.extract start stop).reverse ++ slots.extract stop slots.size

/-- Moves the slots from `start` to `stop` around by `k` places toward the end, by reversing both parts
and then the whole. -/
def rotateRange (slots : Array Value) (start stop k : Nat) : Array Value :=
  let middle := stop - k
  reverseRange (reverseRange (reverseRange slots start middle) middle stop) start stop

/-- Moves the values from an index to the top around by `n` places, toward the top for a positive `n`
and toward the bottom for a negative one. -/
def rotate (i n : Int) : StackM Unit := do
  let s ← get
  match s.position? i with
  | none => throw (.invalidIndex i)
  | some p =>
    let k := (n % ((s.top - p : Nat) : Int)).toNat
    set { s with slots := rotateRange s.slots p s.top k }

theorem perform_rotate (i n : Int) (s : Stack) :
    (rotate i n).perform s =
      match s.position? i with
      | none => (.error (.invalidIndex i), s)
      | some p =>
        let k := (n % ((s.top - p : Nat) : Int)).toNat
        (.ok (), { s with slots := rotateRange s.slots p s.top k }) := by
  simp only [rotate, StackM.perform_bind, StackM.perform_get]
  cases s.position? i <;> rfl

/-! ## Height -/

/-- Pops `n` values. -/
def popMany : (n : Nat) → StackM Unit
  | 0 => return
  | n + 1 => do
    let _ ← pop
    popMany n

/-- Pushes nil `n` times. -/
def pushNils : (n : Nat) → StackM Unit
  | 0 => return
  | n + 1 => do
    push .nil
    pushNils n

/-- Makes the value at an index the top one: pops what is above, or fills up with nil. Index zero empties
the stack. -/
def setTop (i : Int) : StackM Unit := do
  let s ← get
  let height := s.absIndex i
  if height < 0 then throw .stackUnderflow
  else if s.capacity < height.toNat then throw .stackOverflow
  else
    popMany (s.top - height.toNat)
    pushNils (height.toNat - s.top)

end Stack

end LuaKernel
