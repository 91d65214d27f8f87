import LuaKernel.Chunk.Format

/-!
# Reading from a chunk

Loading is made of the few steps of an `Input`: to take bytes, to report that they are not there, to
subtract lengths and to set aside room. What is read with them is the same on every input. A `Reader` is the
input that a chunk is loaded from: it takes bytes from the front, counts how many it has taken, and fails at
the first thing that is not there. Counted tables take as many entries as their count says and fail at the
first one that the input does not hold, so a forged count costs no more than the input.
-/

namespace LuaKernel.Chunk

/-- The steps that loading is made of. -/
class Input (m : Type → Type) where
  /-- The next `n` bytes. -/
  take (n : Nat) : m Bytes
  /-- Fails for want of `needed` bytes here. -/
  truncated {α : Type} (needed : Nat) : m α
  /-- The length `a - b`, where `b` is not above `a`. -/
  sub (a b : Nat) : m Nat
  /-- Sets aside room for `count` entries of at least `leastSize` bytes, or for as many of them as what is
  left could hold. -/
  reserve (leastSize count : Nat) : m Unit

namespace Input

variable {m : Type → Type} [Monad m] [Input m]

/-- The next byte. -/
def byte : m UInt8 := return (← take 1).headD 0

/-- A byte that says no by zero and yes by anything else. -/
def bool : m Bool := return (← byte) != 0

/-- A word of four bytes. -/
def word32 : m UInt32 := return UInt32.ofNat (Bytes.ofLeBytes (← take 4))

/-- A word of eight bytes. -/
def word64 : m UInt64 := return UInt64.ofNat (Bytes.ofLeBytes (← take 8))

/-- A string that may be absent. A stored size counts one byte more than there are, so a size of zero
after the mark is short of any input. -/
def string? : m (Option Bytes) := do
  let size ← byte
  if size = 0 then return none
  else if size = longSizeMark then
    let size ← word64
    if size = 0 then truncated (UInt64.size - 1)
    else
      let length ← sub size.toNat 1
      return some (← take length)
  else
    let length ← sub size.toNat 1
    return some (← take length)

/-- A string, empty if it is absent. -/
def string : m Bytes := return (← string?).getD []

/-- `n` entries. -/
def entries {α : Type} (entry : m α) : (n : Nat) → m (List α)
  | 0 => return []
  | n + 1 => do
    let x ← entry
    let xs ← entries entry n
    return x :: xs

/-- A counted table of entries, each of at least `leastSize` bytes. -/
def table {α : Type} (leastSize : Nat) (entry : m α) : m (List α) := do
  let n ← word32
  reserve leastSize n.toNat
  entries entry n.toNat

end Input

/-- A place in the input: how many bytes are behind it, and the ones ahead. -/
structure Cursor where
  offset : Nat
  rest : Bytes
deriving DecidableEq, Repr

/-- A computation that takes bytes from the input. -/
abbrev Reader := StateT Cursor (Except DecodeError)

namespace Reader

theorem run_bind_of_ok {α β : Type} {r : Reader α} {c c' : Cursor} {a : α}
    (h : r.run c = .ok (a, c')) (f : α → Reader β) : (r >>= f).run c = (f a).run c' := by
  rw [StateT.run_bind, h]; rfl

theorem run_bind_of_error {α β : Type} {r : Reader α} {c : Cursor} {e : DecodeError}
    (h : r.run c = .error e) (f : α → Reader β) : (r >>= f).run c = .error e := by
  rw [StateT.run_bind, h]; rfl

/-- A sequence succeeds only if both of its parts do. -/
theorem run_bind_ok {α β : Type} {r : Reader α} {f : α → Reader β} {c c'' : Cursor} {b : β}
    (h : (r >>= f).run c = .ok (b, c'')) :
    ∃ a c', r.run c = .ok (a, c') ∧ (f a).run c' = .ok (b, c'') := by
  cases hr : r.run c with
  | error e => rw [run_bind_of_error hr] at h; cases h
  | ok x => exact ⟨x.1, x.2, rfl, by rwa [run_bind_of_ok hr] at h⟩

def truncated {α : Type} (needed : Nat) : Reader α := do
  let c ← get
  throw (.truncated c.offset needed c.rest.length)

def take (n : Nat) : Reader Bytes := do
  let c ← get
  let front := c.rest.take n
  if front.length = n then
    set ({ offset := c.offset + n, rest := c.rest.drop n } : Cursor)
    return front
  else truncated n

/-- Room takes nothing from the input. -/
instance : Input Reader where
  take := take
  truncated := truncated
  sub a b := return a - b
  reserve _ _ := return

theorem run_take (n : Nat) (c : Cursor) :
    (Input.take n : Reader Bytes).run c =
      if (c.rest.take n).length = n then
        .ok (c.rest.take n, { offset := c.offset + n, rest := c.rest.drop n })
      else .error (.truncated c.offset n c.rest.length) := by
  show (take n).run c = _
  simp only [take, StateT.run_bind, StateT.run_get]
  show (if _ then _ else _ : Reader Bytes).run c = _
  split <;> rfl

theorem run_byte (c : Cursor) :
    (Input.byte : Reader UInt8).run c =
      match c.rest with
      | b :: rest => .ok (b, { offset := c.offset + 1, rest := rest })
      | [] => .error (.truncated c.offset 1 0) := by
  obtain ⟨offset, _ | _⟩ := c <;> rfl

end Reader

end LuaKernel.Chunk
