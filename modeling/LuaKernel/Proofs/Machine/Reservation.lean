import LuaKernel.Proofs.Machine.Failure

/-!
# Reserved room

A host that has reserved room for `n` values may go up to the height it had then and `n` more, however it
gets there, and no operation lacks room. Two kinds of operations can lack room: those that put one value on
top and take none (`HostOp.pushes`), and the one that sets the height. All others take a value at least for
the one that they put.

* `host_overflows_iff`: what lacks room, one case for each operation.
* `RunsWithin h ops s`: no operation of a run asks for a height above `h`.
* `runAll_within`: then none lacks room if there is room up to `h`, by induction on the run, since capacity
  is never taken away.
* `run_reservation`: the same from any stack that a host can reach.
-/

namespace LuaKernel

namespace HostOp

/-- On this stack the operation puts a value on top and takes none: a push, the length of a string, and
the concatenation of no values. -/
def pushes (op : HostOp) (s : Stack) : Bool :=
  match op with
  | .push _ | .pushValue _ => true
  | .length i => (s.valueAt i).isString
  | .concat n => n == 0
  | _ => false

/-- On this stack the operation asks for no height above `h`: what it pushes comes to lie no higher, and
so does the top that it sets. -/
structure AsksWithin (h : Nat) (op : HostOp) (s : Stack) : Prop where
  below : op.pushes s → s.top < h
  sets : ∀ i, op = .setTop i → s.absIndex i ≤ h

/-- No operation of a run asks for a height above `h` on the stack that the ones before it leave. -/
def RunsWithin (h : Nat) : List HostOp → Stack → Prop
  | [], _ => True
  | op :: ops, s => op.AsksWithin h s ∧ RunsWithin h ops (op.perform s).2

end HostOp

/-- Comparisons have faults of their own only. -/
theorem Value.compare_ne_stackOverflow (op : CompareOp) (a b : Value) :
    Value.compare op a b ≠ .error .stackOverflow := by
  cases op with
  | eq => exact nofun
  | lt =>
    show less a b ≠ _
    unfold less
    split <;> exact nofun
  | le =>
    show lessEq a b ≠ _
    unfold lessEq
    split <;> exact nofun

namespace BoundedList

variable (b : BoundedList)

/-- A result for want of room. -/
def Overflows (r : Except Fault Unit × BoundedList) : Prop := r.1 = .error .stackOverflow

/-! ## What lacks room -/

theorem push_overflows_iff (v : Value) : Overflows (b.push v) ↔ b.values.length = b.capacity := by
  have hfits := b.fits
  unfold Overflows push
  split
  · rename_i hroom
    simp [Nat.ne_of_lt hroom]
  · rename_i hroom
    simp [Nat.le_antisymm hfits (Nat.le_of_not_lt hroom)]

theorem setTop_overflows_iff (i : Int) : Overflows (b.setTop i) ↔ (b.capacity : Int) < b.denote i := by
  unfold Overflows setTop
  split
  · have hlow : ¬(b.capacity : Int) < b.denote i := by omega
    simp [hlow]
  split
  · have hlow : ¬(b.capacity : Int) < b.denote i := by omega
    simp [hlow]
  · have hhigh : (b.capacity : Int) < b.denote i := by omega
    simp [hhigh]

theorem length_overflows_iff (i : Int) :
    Overflows (b.length i) ↔ (b.valueAt i).isString ∧ b.values.length = b.capacity := by
  unfold length
  cases b.valueAt i with
  | string t => simp [Value.isString, push_overflows_iff]
  | nil => simp [Overflows, Value.isString]
  | boolean c => simp [Overflows, Value.isString]
  | integer n => simp [Overflows, Value.isString]
  | float x => simp [Overflows, Value.isString]

theorem concat_overflows_iff (n : Nat) :
    Overflows (b.concat n) ↔ n = 0 ∧ b.values.length = b.capacity := by
  match n with
  | 0 => simp [concat, push_overflows_iff]
  | 1 =>
    have hnot : ¬Overflows (b.concat 1) := by
      unfold Overflows concat
      split
      · contradiction
      split <;> simp
    simp [hnot]
  | n + 2 =>
    have hnot : ¬Overflows (b.concat (n + 2)) := concat_ne_stackOverflow (by omega) b
    simp [hnot]

theorem not_overflows_discard (n : Nat) : ¬Overflows (b.discard n) := by
  unfold Overflows discard
  split <;> simp

theorem not_overflows_store (i : Int) (v : Value) : ¬Overflows (b.store i v) := by
  unfold Overflows store
  split <;> simp

theorem not_overflows_rotate (i n : Int) : ¬Overflows (b.rotate i n) := by
  unfold Overflows rotate
  split <;> simp

theorem not_overflows_remove (i : Int) : ¬Overflows (b.remove i) := by
  unfold Overflows remove
  split <;> simp

theorem not_overflows_replace (i : Int) : ¬Overflows (b.replace i) := by
  unfold replace pop
  split
  · exact not_overflows_store _ i _
  · rename_i e b' hpop
    split at hpop <;> cases hpop
    simp [Overflows]

theorem not_overflows_arith (op : ArithOp) : ¬Overflows (b.arith op) := by
  intro h
  rcases arith_eq_error h with ⟨-, he⟩ | ⟨-, ⟨k, he⟩ | he⟩ <;> cases he

theorem not_overflows_compare (i j : Int) (op : CompareOp) : ¬Overflows (host (.compare i j op) b) := by
  intro h
  have hcompare := Value.compare_ne_stackOverflow op (b.valueAt i) (b.valueAt j)
  change (Value.compare op (b.valueAt i) (b.valueAt j)).map (fun _ => ()) = _ at h
  cases hr : Value.compare op (b.valueAt i) (b.valueAt j) with
  | ok c => rw [hr] at h; cases h
  | error e =>
    rw [hr] at h hcompare
    cases h
    exact hcompare rfl

/-- **What lacks room**: a push when the stack is full, and a height above the capacity. -/
theorem host_overflows_iff (op : HostOp) :
    Overflows (host op b) ↔ (op.pushes b.toStack ∧ b.values.length = b.capacity) ∨
      ∃ i, op = .setTop i ∧ (b.capacity : Int) < b.denote i := by
  -- All but the operations that push and the one that sets the height are settled by their not lacking room.
  have hother (hnot : ¬Overflows (host op b)) (hpushes : op.pushes b.toStack = false)
      (hset : ∀ i, op ≠ .setTop i) : Overflows (host op b) ↔
        (op.pushes b.toStack ∧ b.values.length = b.capacity) ∨
          ∃ i, op = .setTop i ∧ (b.capacity : Int) < b.denote i := by
    simp [hnot, hpushes, hset]
  cases op with
  | push v => simp [host, HostOp.pushes, push_overflows_iff]
  | pushValue i => simp [host, HostOp.pushes, push_overflows_iff]
  | length i => simp [host, HostOp.pushes, length_overflows_iff]
  | concat n => simp [host, HostOp.pushes, concat_overflows_iff]
  | setTop i => simp [host, HostOp.pushes, setTop_overflows_iff]
  | pop n => exact hother (b.not_overflows_discard n) rfl (by simp)
  | copy source target => exact hother (b.not_overflows_store target _) rfl (by simp)
  | replace i => exact hother (b.not_overflows_replace i) rfl (by simp)
  | insert i => exact hother (b.not_overflows_rotate i 1) rfl (by simp)
  | remove i => exact hother (b.not_overflows_remove i) rfl (by simp)
  | rotate i n => exact hother (b.not_overflows_rotate i n) rfl (by simp)
  | reserve n => exact hother (by simp [Overflows, host]) rfl (by simp)
  | stringAt i => exact hother (by simp [Overflows, host]) rfl (by simp)
  | stringAt? i => exact hother (by simp [Overflows, host]) rfl (by simp)
  | arith o => exact hother (b.not_overflows_arith o) rfl (by simp)
  | compare i j o => exact hother (b.not_overflows_compare i j o) rfl (by simp)

/-! ## Runs -/

/-- **One operation** that asks for no height above `h` does not lack room if there is room up to `h`. -/
theorem perform_within {h : Nat} {op : HostOp} (hcap : h ≤ b.capacity) (hop : op.AsksWithin h b.toStack) :
    (op.perform b.toStack).1 ≠ .error .stackOverflow := by
  have hstep := refines_host op b
  unfold HostOp.perform
  rw [hstep]
  intro hover
  rcases (b.host_overflows_iff op).1 hover with ⟨hpush, hfull⟩ | ⟨i, hi, hlt⟩
  · have hbelow := hop.below hpush
    rw [top_toStack] at hbelow
    omega
  · have hbelow := hop.sets i hi
    rw [absIndex_toStack] at hbelow
    omega

/-- **A run** within `h`. Each operation leaves at least the capacity there was. -/
theorem runAll_within {h : Nat} {ops : List HostOp} {b : BoundedList} (hcap : h ≤ b.capacity)
    (hrun : HostOp.RunsWithin h ops b.toStack) :
    .error .stackOverflow ∉ (runAll HostOp.perform ops b.toStack).1 := by
  induction ops generalizing b with
  | nil => exact List.not_mem_nil
  | cons op ops ih =>
    obtain ⟨hop, hops⟩ := hrun
    obtain ⟨b', hstep, hgrow, -⟩ := HostOp.perform_toStack op b
    rw [hstep] at hops
    have hrest := ih (Nat.le_trans hcap hgrow) hops
    intro hmem
    rcases List.mem_cons.1 hmem with hfirst | hlater
    · exact b.perform_within hcap hop hfirst.symm
    · rw [← hstep] at hrest
      exact hrest hlater

end BoundedList

open BoundedList

/-- **Reserved room is there** for whatever a host does later, as long as nothing asks for a height above the
one at the time of the reservation and `n` more. What pushes lacks room exactly on a full stack. -/
theorem run_reservation (capacity : Nat) (ops : List HostOp) :
    let s := (runAll HostOp.perform ops (.ofCapacity capacity)).2
    (∀ n, ∃ t, (HostOp.reserve n).perform s = (.ok (), t) ∧ t.values = s.values ∧ t.top = s.top ∧
      ∀ more, HostOp.RunsWithin (s.top + n) more t →
        .error .stackOverflow ∉ (runAll HostOp.perform more t).1) ∧
    ∀ op : HostOp, op.pushes s → ((op.perform s).1 = .error .stackOverflow ↔ s.top = s.capacity) := by
  rw [runAll_host]
  generalize (runAll host ops (empty capacity)).2 = b
  refine ⟨fun n => ⟨(b.reserve n).toStack, refines_reserve n b, ?_, rfl, fun more hmore => ?_⟩,
    fun op hop => ?_⟩
  · rw [values_toStack, values_toStack]
    rfl
  · exact runAll_within (Nat.le_max_right ..) hmore
  · have hnot : ¬∃ i, op = .setTop i ∧ (b.capacity : Int) < b.denote i := by
      rintro ⟨i, rfl, -⟩
      cases hop
    unfold HostOp.perform
    rw [refines_host op b, top_toStack, capacity_toStack]
    refine (b.host_overflows_iff op).trans ⟨fun h => ?_, fun h => .inl ⟨hop, h⟩⟩
    exact (h.resolve_right hnot).2

/-- A full stack of two with room reserved for one more: a value is pushed there, both upper ones go in a
failed addition, and the height is set to three again; then the next length has no room. -/
theorem run_reservation_refilled :
    let ops : List HostOp := [.push (.string [0x61]), .push (.boolean true)]
    let s := (runAll HostOp.perform ops (.ofCapacity 2)).2
    let more : List HostOp := [.push (.integer 1), .arith .add, .setTop 3]
    (∃ t, (HostOp.reserve 1).perform s = (.ok (), t) ∧ HostOp.RunsWithin 3 more t ∧
      .error .stackOverflow ∉ (runAll HostOp.perform more t).1) ∧
    (HostOp.length 1).pushes s ∧ ((HostOp.length 1).perform s).1 = .error .stackOverflow := by
  intro ops s more
  obtain ⟨hreserve, hfull⟩ := run_reservation 2 ops
  have hpushes : (HostOp.length 1).pushes s := by decide
  refine ⟨?_, hpushes, (hfull _ hpushes).2 (by decide)⟩
  obtain ⟨t, ht, -, -, hrun⟩ := hreserve 1
  obtain rfl : ((HostOp.reserve 1).perform s).2 = t := congrArg Prod.snd ht
  have hwithin : HostOp.RunsWithin 3 more ((HostOp.reserve 1).perform s).2 :=
    ⟨⟨fun _ => by decide, nofun⟩, ⟨nofun, nofun⟩, ⟨nofun, fun i hi => by cases hi; decide⟩, trivial⟩
  exact ⟨_, ht, hwithin, hrun more hwithin⟩

end LuaKernel
