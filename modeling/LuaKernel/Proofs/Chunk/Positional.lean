import LuaKernel.Proofs.Chunk.Relations

/-!
# Loading by position

An input that stays where it is, with the place in it as a number. Each subtraction of lengths, each slice of
the input and each move of the place is checked, and one that would go wrong is a `Violation`: the loader's
own checks must come before it. `Follows x r`: from every place of an input, `x` and the reader `r` give the
same answer and end at the same place of the input, without a violation.

* `follows_take`: taking bytes compares with what is left before it slices.
* `functionRelation_follows`: each step by position follows the step of a reader, so loading does.
* `decode_within_input`: loading by position commits no violation and is `Chunk.decode`; an input that is
  reported as too short is too short, where and by what the report says.
-/

namespace LuaKernel.Chunk

/-- What must not happen while loading. -/
inductive Violation where
  /-- `a - b` for a larger `b`. -/
  | underflow (a b : Nat)
  /-- A slice that is not part of the input. -/
  | outside (start stop : Nat)
  /-- A place after the end of the input. -/
  | astray (place : Nat)
deriving DecidableEq, Repr

/-- A computation on an input that stays, at a place that moves. -/
abbrev Positional := ReaderT Bytes (StateT Nat (ExceptT DecodeError (Except Violation)))

namespace Positional

variable {α β : Type}

/-- The answer, with the place where it ends, or the error. -/
def exec (x : Positional α) (d : Bytes) (p : Nat) : Except Violation (Except DecodeError (α × Nat)) :=
  ((x.run d).run p).run

def violate (v : Violation) : Positional α := throwThe Violation v

/-! ## Checked steps -/

def sub (a b : Nat) : Positional Nat := if b ≤ a then return a - b else violate (.underflow a b)

def slice (start stop : Nat) : Positional Bytes := do
  let d ← read
  if start ≤ stop ∧ stop ≤ d.length then return (d.drop start).take (stop - start)
  else violate (.outside start stop)

def moveTo (p : Nat) : Positional Unit := do
  let d ← read
  if p ≤ d.length then set p else violate (.astray p)

/-! ## The steps of loading -/

/-- How many bytes are left. -/
def remaining : Positional Nat := do
  let d ← read
  let p ← get
  sub d.length p

def truncated (needed : Nat) : Positional α := do
  let p ← get
  let left ← remaining
  throw (.truncated p needed left)

def take (n : Nat) : Positional Bytes := do
  let left ← remaining
  if left < n then truncated n
  else
    let p ← get
    let s ← slice p (p + n)
    moveTo (p + n)
    return s

/-- Room is set aside for no more than what is left could hold, so that is computed. -/
instance : Input Positional where
  take := take
  truncated := truncated
  sub := sub
  reserve _ _ := do
    let _ ← remaining
    return

/-- The prototype tree of a chunk, loaded by position. -/
def decode (input : Bytes) : Except Violation (Except DecodeError Prototype) :=
  if input.length < headerSize then .ok (.error (.truncated 0 headerSize input.length))
  else (exec readChunk input 0).map fun r => r.map Prod.fst

/-! ## Running a sequence -/

theorem exec_bind_of_ok {x : Positional α} {d : Bytes} {p q : Nat} {a : α}
    (h : x.exec d p = .ok (.ok (a, q))) (f : α → Positional β) :
    (x >>= f).exec d p = (f a).exec d q := by
  simp only [exec, ReaderT.run_bind, StateT.run_bind, ExceptT.run_bind] at *
  rw [h]
  rfl

theorem exec_bind_of_error {x : Positional α} {d : Bytes} {p : Nat} {e : DecodeError}
    (h : x.exec d p = .ok (.error e)) (f : α → Positional β) :
    (x >>= f).exec d p = .ok (.error e) := by
  simp only [exec, ReaderT.run_bind, StateT.run_bind, ExceptT.run_bind] at *
  rw [h]
  rfl

theorem sub_of_le {a b : Nat} (h : b ≤ a) : sub a b = pure (a - b) := if_pos h

section
variable {d : Bytes} {p : Nat} (hp : p ≤ d.length)
include hp

theorem exec_remaining : remaining.exec d p = .ok (.ok (d.length - p, p)) := by
  show (sub d.length p).exec d p = _
  rw [sub_of_le hp]
  rfl

theorem exec_truncated (n : Nat) :
    (truncated n : Positional α).exec d p = .ok (.error (.truncated p n (d.length - p))) := by
  show (remaining >>= fun left => throw (.truncated p n left) : Positional α).exec d p = _
  rw [exec_bind_of_ok (exec_remaining hp)]
  rfl

/-- A slice is only taken once it is known to end inside the input. -/
theorem exec_take (n : Nat) : (take n).exec d p =
    if d.length - p < n then .ok (.error (.truncated p n (d.length - p)))
    else .ok (.ok ((d.drop p).take n, p + n)) := by
  rw [take, exec_bind_of_ok (exec_remaining hp)]
  split
  · exact exec_truncated hp n
  · have hend : p + n ≤ d.length := by omega
    have hslice : (slice p (p + n)).exec d p = .ok (.ok ((d.drop p).take n, p)) := by
      show (if p ≤ p + n ∧ p + n ≤ d.length then _ else _ : Positional Bytes).exec d p = _
      rw [if_pos ⟨Nat.le_add_right p n, hend⟩, Nat.add_sub_cancel_left]
      rfl
    have hmove : (moveTo (p + n)).exec d p = .ok (.ok ((), p + n)) := by
      show (if p + n ≤ d.length then _ else _ : Positional Unit).exec d p = _
      rw [if_pos hend]
      rfl
    have hget : (get : Positional Nat).exec d p = .ok (.ok (p, p)) := rfl
    rw [exec_bind_of_ok hget, exec_bind_of_ok hslice, exec_bind_of_ok hmove]
    rfl

end

/-! ## Following a reader -/

/-- A report that the input is too short names a place of the input, what is left there, and a need for
more. -/
def Truthful (d : Bytes) (e : DecodeError) : Prop :=
  ∀ offset needed left, e = .truncated offset needed left →
    offset ≤ d.length ∧ left = d.length - offset ∧ left < needed

theorem truthful_truncated {d : Bytes} {p n : Nat} (hp : p ≤ d.length) (hn : d.length - p < n) :
    Truthful d (.truncated p n (d.length - p)) := by
  intro offset needed left h
  cases h
  exact ⟨hp, rfl, hn⟩

/-- Both end at one place of the input, or with one error that is true of it. -/
inductive Agree (d : Bytes) :
    Except Violation (Except DecodeError (α × Nat)) → Except DecodeError (α × Cursor) → Prop
  | ok {a : α} {q : Nat} (hq : q ≤ d.length) : Agree d (.ok (.ok (a, q))) (.ok (a, ⟨q, d.drop q⟩))
  | error {e : DecodeError} (he : Truthful d e) : Agree d (.ok (.error e)) (.error e)

/-- From every place of an input, the two agree. -/
def Follows (x : Positional α) (r : Reader α) : Prop :=
  ∀ d : Bytes, d.length < UInt64.size - 1 → ∀ p ≤ d.length, Agree d (x.exec d p) (r.run ⟨p, d.drop p⟩)

namespace Follows

variable {x : Positional α} {r : Reader α}

theorem pure (a : α) : Follows (Pure.pure a) (Pure.pure a) := fun _ _ _ hp => .ok hp

theorem throw {e : DecodeError} (h : ∀ d, Truthful d e) : Follows (throw e : Positional α) (throw e) :=
  fun d _ _ _ => .error (h d)

/-- More bytes than any input has are never left. -/
theorem truncated : Follows (Input.truncated (UInt64.size - 1) : Positional α)
    (Input.truncated (UInt64.size - 1)) := by
  intro d hd p hp
  have hread : (Input.truncated (UInt64.size - 1) : Reader α).run ⟨p, d.drop p⟩ =
      .error (.truncated p (UInt64.size - 1) (d.length - p)) := by
    rw [← List.length_drop]
    rfl
  show Agree d ((Positional.truncated (UInt64.size - 1) : Positional α).exec d p) _
  rw [exec_truncated hp, hread]
  exact .error (truthful_truncated hp (by omega))

/-- **One thing after another**: the second starts where the first has ended, which is in the input. -/
theorem bind {f : α → Positional β} {g : α → Reader β} (h : Follows x r)
    (hf : ∀ a, Follows (f a) (g a)) : Follows (x >>= f) (r >>= g) := by
  intro d hd p hp
  have hagree := h d hd p hp
  generalize hx : x.exec d p = out at hagree
  generalize hr : r.run ⟨p, d.drop p⟩ = out' at hagree
  cases hagree with
  | @ok a q hq =>
    rw [exec_bind_of_ok hx, Reader.run_bind_of_ok hr]
    exact hf a d hd q hq
  | error he =>
    rw [exec_bind_of_error hx, Reader.run_bind_of_error hr]
    exact .error he

end Follows

theorem follows_take (n : Nat) : Follows (Input.take n) (Input.take n) := by
  intro d hd p hp
  show Agree d ((take n).exec d p) _
  rw [exec_take hp, Reader.run_take]
  simp only [List.length_take, List.length_drop, List.drop_drop]
  by_cases hn : d.length - p < n
  · rw [if_pos hn, if_neg (by omega)]
    exact .error (truthful_truncated hp hn)
  · rw [if_neg hn, if_pos (by omega)]
    exact .ok (by omega)

theorem follows_sub {a b : Nat} (h : b ≤ a) : Follows (Input.sub a b) (Input.sub a b) := by
  show Follows (sub a b) (pure (a - b))
  rw [sub_of_le h]
  exact .pure (a - b)

/-- To look at how much is left is to do nothing. -/
theorem follows_reserve (leastSize count : Nat) :
    Follows (Input.reserve leastSize count) (Input.reserve leastSize count) := by
  intro d hd p hp
  show Agree d ((remaining >>= fun _ => pure ()).exec d p) _
  rw [exec_bind_of_ok (exec_remaining hp)]
  exact .ok hp

theorem functionRelation_follows : FunctionRelation (m := Positional) (n := Reader) fun _ => Follows where
  pure := .pure
  bind := .bind
  take := follows_take
  truncated := .truncated
  sub := follows_sub
  unknownTag _ := .throw nofun
  reserve := follows_reserve
  nestedTooDeep _ := .throw nofun

end Positional

/-- **The loader stays inside its input.** On every input whose length a word can say, loading by position
commits no violation and answers as `decode` does; and when it reports that the input ended, the report
is true: its place is in the input, so many bytes are left there, and more were needed. -/
theorem decode_within_input {d : Bytes} (hd : d.length < UInt64.size - 1) :
    Positional.decode d = .ok (decode d) ∧
      ∀ offset needed remaining, decode d = .error (.truncated offset needed remaining) →
        offset ≤ d.length ∧ remaining = d.length - offset ∧ remaining < needed := by
  unfold Positional.decode decode
  by_cases hlen : d.length < headerSize
  · rw [if_pos hlen, if_pos hlen]
    refine ⟨rfl, fun offset needed remaining h => ?_⟩
    cases h
    exact ⟨Nat.zero_le _, rfl, hlen⟩
  · rw [if_neg hlen, if_neg hlen]
    have hagree := Positional.functionRelation_follows.readChunk (fun _ => .throw nofun) d hd 0 (Nat.zero_le _)
    rw [List.drop_zero] at hagree
    generalize Positional.exec readChunk d 0 = out at hagree ⊢
    generalize (readChunk : Reader Prototype).run ⟨0, d⟩ = out' at hagree ⊢
    cases hagree with
    | ok hq => exact ⟨rfl, nofun⟩
    | error he =>
      refine ⟨rfl, fun offset needed remaining h => ?_⟩
      cases h
      exact he _ _ _ rfl

/-- A source whose long size is zero, which no input can satisfy, with two bytes after it. -/
theorem decode_within_input_forged :
    let d : Bytes := header ++ [0] ++ [longSizeMark] ++ List.replicate 8 0 ++ [7, 7]
    d.length < UInt64.size - 1 ∧ Positional.decode d = .ok (decode d) ∧
      decode d = .error (.truncated 43 (UInt64.size - 1) 2) ∧
      43 ≤ d.length ∧ 2 = d.length - 43 ∧ 2 < UInt64.size - 1 := by
  intro d
  have hd : d.length < UInt64.size - 1 := by decide
  have hshort : decode d = .error (.truncated 43 (UInt64.size - 1) 2) := rfl
  obtain ⟨hpositional, htrue⟩ := decode_within_input hd
  exact ⟨hd, hpositional, hshort, htrue _ _ _ hshort⟩

end LuaKernel.Chunk
