import LuaKernel.Prototype

/-!
# The variables alive at an instruction

The search for a local variable stops at the first one that starts after the instruction, and counts those
before it that have not ended. It is the table cut off there, filtered and indexed (`activeAfter?_eq`); in a
table in the order of the starts nothing alive stands after the cut (`filter_startedAt`).

* `IsLongestStart pc vs front`: `front` is the longest beginning of `vs` that has started at `pc`.
* `countedName?`: the search with a counter that is taken down by one at each variable alive.
* `localName?_nth`: what the search finds, in a table in order and in any table, and that its counter is never
  taken below zero.
-/

namespace LuaKernel

namespace LocalVariable

def startedAt (pc : UInt32) (v : LocalVariable) : Bool := v.startPc ≤ pc

def aliveAt (pc : UInt32) (v : LocalVariable) : Bool := v.startPc ≤ pc && pc < v.endPc

variable {pc : UInt32} {v : LocalVariable}

theorem startedAt_iff : v.startedAt pc ↔ v.startPc ≤ pc := decide_eq_true_iff

theorem aliveAt_iff : v.aliveAt pc ↔ v.startedAt pc ∧ pc < v.endPc := by
  rw [startedAt_iff, aliveAt, Bool.and_eq_true, decide_eq_true_iff, decide_eq_true_iff]

end LocalVariable

open LocalVariable

/-! ## The longest beginning -/

/-- `front` is the longest beginning of a table whose variables all start at `pc` or before it. -/
structure IsLongestStart (pc : UInt32) (vs front : List LocalVariable) : Prop where
  begins : front <+: vs
  started : ∀ v ∈ front, v.startPc ≤ pc
  longest : ∀ other, other <+: vs → (∀ v ∈ other, v.startPc ≤ pc) → other.length ≤ front.length

theorem isLongestStart_takeWhile (pc : UInt32) (vs : List LocalVariable) :
    IsLongestStart pc vs (vs.takeWhile (startedAt pc)) where
  begins := List.takeWhile_prefix _
  started v hv := startedAt_iff.1 (List.all_eq_true.1 List.all_takeWhile v hv)
  longest other hother hstarted := by
    obtain ⟨rest, rfl⟩ := hother
    rw [List.takeWhile_append_of_pos fun v hv => startedAt_iff.2 (hstarted v hv), List.length_append]
    exact Nat.le_add_right ..

/-- **Nothing alive stands after the cut**, where variables are in the order of their starts. -/
theorem filter_startedAt (pc : UInt32) {vs : List LocalVariable}
    (h : vs.Pairwise fun v w => v.startPc ≤ w.startPc) :
    (vs.takeWhile (startedAt pc)).filter (aliveAt pc) = vs.filter (aliveAt pc) := by
  induction vs with
  | nil => rfl
  | cons v vs ih =>
    obtain ⟨hv, hvs⟩ := List.pairwise_cons.1 h
    by_cases hstart : v.startedAt pc
    · rw [List.takeWhile_cons_of_pos hstart, List.filter_cons, List.filter_cons, ih hvs]
    · -- The cut is here, and all that follows starts later still.
      rw [List.takeWhile_cons_of_neg hstart, List.filter_nil, eq_comm, List.filter_eq_nil_iff]
      intro w hw halive
      have hlater : v.startPc ≤ w.startPc := by
        rcases List.mem_cons.1 hw with rfl | hw
        · exact UInt32.le_refl _
        · exact hv w hw
      have hstarted := startedAt_iff.1 (aliveAt_iff.1 halive).1
      exact hstart (startedAt_iff.2 (UInt32.le_trans hlater hstarted))

namespace FunctionBody

/-! ## The search -/

/-- **The search is an index**: of the variables alive before the cut, the one after `skip` others. -/
theorem activeAfter?_eq (pc : UInt32) (vs : List LocalVariable) (skip : Nat) :
    activeAfter? pc vs skip =
      (((vs.takeWhile (startedAt pc)).filter (aliveAt pc))[skip]?).map LocalVariable.name := by
  fun_induction activeAfter? pc vs skip with
  | case1 => rfl
  | case2 v vs skip hlater =>
    have hstart : ¬v.startedAt pc := fun h => UInt32.not_lt.2 (startedAt_iff.1 h) hlater
    rw [List.takeWhile_cons_of_neg hstart]
    rfl
  | case3 v vs hstart hend =>
    have hstart : v.startedAt pc := startedAt_iff.2 (UInt32.not_lt.1 hstart)
    rw [List.takeWhile_cons_of_pos hstart, List.filter_cons_of_pos (aliveAt_iff.2 ⟨hstart, hend⟩)]
    rfl
  | case4 v vs hstart hend skip ih =>
    have hstart : v.startedAt pc := startedAt_iff.2 (UInt32.not_lt.1 hstart)
    rw [List.takeWhile_cons_of_pos hstart, List.filter_cons_of_pos (aliveAt_iff.2 ⟨hstart, hend⟩)]
    exact ih
  | case5 v vs skip hstart hend ih =>
    have hstart : v.startedAt pc := startedAt_iff.2 (UInt32.not_lt.1 hstart)
    rw [List.takeWhile_cons_of_pos hstart, List.filter_cons_of_neg fun h => hend (aliveAt_iff.1 h).2]
    exact ih

/-! ## The counter -/

/-- One less, or `none` below zero. -/
def decrement? : Nat → Option Nat
  | 0 => none
  | n + 1 => some n

/-- The search for the `n`-th variable alive, by counting down to zero: `none` where the counter would go
below it. -/
def countDown? (pc : UInt32) : List LocalVariable → (n : Nat) → Option (Option Bytes)
  | [], _ => some none
  | v :: vs, n =>
    if pc < v.startPc then some none
    else if pc < v.endPc then
      (decrement? n).bind fun left => if left = 0 then some (some v.name) else countDown? pc vs left
    else countDown? pc vs n

def countedName? (f : FunctionBody) (n : Nat) (pc : UInt32) : Option (Option Bytes) :=
  if n = 0 then some none else countDown? pc f.locals n

/-- **The counter is one more than what is still to be passed over**, so that it is not zero before the
search ends. -/
theorem countDown?_succ (pc : UInt32) (vs : List LocalVariable) (skip : Nat) :
    countDown? pc vs (skip + 1) = some (activeAfter? pc vs skip) := by
  fun_induction activeAfter? pc vs skip with
  | case1 => rfl
  | case2 v vs skip hlater => rw [countDown?, if_pos hlater]
  | case3 v vs hstart hend =>
    rw [countDown?, if_neg hstart, if_pos hend]
    rfl
  | case4 v vs hstart hend skip ih =>
    rw [countDown?, if_neg hstart, if_pos hend]
    exact ih
  | case5 v vs skip hstart hend ih =>
    rw [countDown?, if_neg hstart, if_neg hend]
    exact ih

theorem countedName?_eq (f : FunctionBody) (n : Nat) (pc : UInt32) :
    f.countedName? n pc = some (f.localName? n pc) := by
  cases n with
  | zero => rfl
  | succ n => exact countDown?_succ pc f.locals n

/-! ## The n-th variable alive -/

/-- **The search finds the `n`-th variable alive**, counted from one in the order of the table: among all if they
are in the order of their starts, and else among the longest beginning that has started. -/
theorem localName?_nth (f : FunctionBody) (n : Nat) (pc : UInt32) :
    f.localName? 0 pc = none ∧
    (1 ≤ n → f.locals.Pairwise (fun v w => v.startPc ≤ w.startPc) →
      f.localName? n pc = ((f.locals.filter (aliveAt pc))[n - 1]?).map LocalVariable.name) ∧
    (1 ≤ n → ∃ front, IsLongestStart pc f.locals front ∧
      f.localName? n pc = ((front.filter (aliveAt pc))[n - 1]?).map LocalVariable.name) ∧
    f.countedName? n pc = some (f.localName? n pc) := by
  have hindex (hn : 1 ≤ n) : f.localName? n pc =
      (((f.locals.takeWhile (startedAt pc)).filter (aliveAt pc))[n - 1]?).map LocalVariable.name := by
    obtain ⟨skip, rfl⟩ := Nat.exists_eq_add_of_le' hn
    exact activeAfter?_eq pc f.locals skip
  refine ⟨rfl, fun hn hsorted => ?_, fun hn => ?_, countedName?_eq f n pc⟩
  · rw [hindex hn, filter_startedAt pc hsorted]
  · exact ⟨_, isLongestStart_takeWhile pc f.locals, hindex hn⟩

/-- A table in order, with a variable that is never alive in the middle, and one where a variable that starts
late hides one that is alive. -/
theorem localName?_nth_hidden :
    let f : FunctionBody := { locals := [⟨[0x61], 0, 10⟩, ⟨[0x62], 2, 2⟩, ⟨[0x63], 3, 10⟩, ⟨[0x64], 9, 10⟩] }
    let g : FunctionBody := { locals := [⟨[0x61], 0, 10⟩, ⟨[0x62], 9, 10⟩, ⟨[0x63], 3, 10⟩] }
    f.locals.Pairwise (fun v w => v.startPc ≤ w.startPc) ∧ f.localName? 2 5 = some [0x63] ∧
      f.localName? 3 5 = none ∧ f.countedName? 3 5 = some none ∧
      (∃ front, IsLongestStart 5 g.locals front ∧
        g.localName? 2 5 = ((front.filter (aliveAt 5))[1]?).map LocalVariable.name) ∧
      g.localName? 2 5 = none := by
  intro f g
  have hsorted : f.locals.Pairwise fun v w => v.startPc ≤ w.startPc := by decide
  obtain ⟨-, htwo, -⟩ := localName?_nth f 2 5
  obtain ⟨-, hthree, -, hcounted⟩ := localName?_nth f 3 5
  obtain ⟨-, -, hfront, -⟩ := localName?_nth g 2 5
  have hnone := hthree (by decide) hsorted
  exact ⟨hsorted, htwo (by decide) hsorted, hnone, hcounted.trans (congrArg some hnone), hfront (by decide), rfl⟩

end FunctionBody

end LuaKernel
