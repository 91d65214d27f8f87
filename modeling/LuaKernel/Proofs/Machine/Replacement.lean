import LuaKernel.Proofs.Machine.ListEdits

/-!
# What a failed replacement leaves

`replace` takes the top value before it looks its index up. An index that addresses none of the values below
the top is refused when the value is gone already, and nothing puts it back.

* `replace_of_nil`, `replace_of_unaddressed`: the two failures.
* `run_replace_failure`: when `replace` fails on a stack that a host can reach, what it leaves then, and on
  which stacks a failure changes nothing.
* `run_replace_not_allOrNothing`: so a failure may lose a value.
-/

namespace LuaKernel

namespace BoundedList

variable {b : BoundedList} {i : Int} {ws : List Value} {x : Value}

theorem replace_of_nil (hb : b.values = []) (i : Int) : b.replace i = (.error .stackUnderflow, b) := by
  rw [replace, pop, dif_pos hb]

/-- The index is refused by what is left, and what is left stays. -/
theorem replace_of_unaddressed (hb : b.values = ws ++ [x]) (h : ¬∃ p, Addresses ws.length i p) :
    b.replace i = (.error (.invalidIndex i), b.cut 1) := by
  have hplace : (b.cut 1).place? i = none := by
    rw [← Option.not_isSome_iff_eq_none, isSome_place?_iff, values_cut_one hb]
    exact h
  rw [replace_concat hb, store, hplace]

theorem not_addresses_zero (i : Int) : ¬∃ p, Addresses 0 i p := by
  rintro ⟨p, h⟩
  exact Nat.not_lt_zero p (addresses_iff.1 h).1

/-- The three outcomes of a replacement, by the values there are and the place the index addresses in all but
the last. -/
theorem replace_cases (b : BoundedList) (i : Int) :
    (b.values = [] ∧ b.replace i = (.error .stackUnderflow, b)) ∨
    (∃ ws x p, b.values = ws ++ [x] ∧ Addresses ws.length i p ∧
      b.replace i = (.ok (), (b.cut 1).replaceAt p x)) ∨
    ∃ ws x, b.values = ws ++ [x] ∧ (¬∃ p, Addresses ws.length i p) ∧
      b.replace i = (.error (.invalidIndex i), b.cut 1) := by
  rcases List.eq_nil_or_concat b.values with hb | ⟨ws, x, hb⟩
  · exact .inl ⟨hb, replace_of_nil hb i⟩
  · rw [List.concat_eq_append] at hb
    by_cases h : ∃ p, Addresses ws.length i p
    · obtain ⟨p, hp⟩ := h
      exact .inr (.inl ⟨ws, x, p, hb, hp, replace_of_addresses hb hp⟩)
    · exact .inr (.inr ⟨ws, x, hb, h, replace_of_unaddressed hb h⟩)

end BoundedList

open BoundedList

/-- **A failed replacement keeps the stack only if there was nothing to take.** The top value is taken before
the index is looked at, so a refusal of the index loses it. -/
theorem run_replace_failure (n : Nat) (ops : List HostOp) (i : Int) :
    let s := (runAll HostOp.perform ops (.ofCapacity n)).2
    let r := (Machine.replace i).perform s
    ((∃ e, r.1 = .error e) ↔ ¬∃ p, Addresses (s.top - 1) i p) ∧
    (∀ e, r.1 = .error e →
      (s.top = 0 ∧ e = .stackUnderflow ∧ r.2 = s) ∨
      (0 < s.top ∧ e = .invalidIndex i ∧ r.2.values = s.values.dropLast ∧ r.2.top = s.top - 1 ∧
        r.2.capacity = s.capacity)) ∧
    ((∀ e, r.1 = .error e → r.2.values = s.values ∧ r.2.top = s.top ∧ r.2.capacity = s.capacity) ↔
      s.top = 0 ∨ ∃ p, Addresses (s.top - 1) i p) := by
  rw [runAll_host]
  generalize (runAll host ops (empty n)).2 = b
  simp only [refines_replace i b, values_toStack, top_toStack]
  rcases replace_cases b i with ⟨hb, hr⟩ | ⟨ws, x, p, hb, hp, hr⟩ | ⟨ws, x, hb, hp, hr⟩
  · -- Nothing to take.
    simp [hr, hb, not_addresses_zero]
  · -- The index addresses a value below the top.
    have hplace : ∃ p, Addresses (b.values.length - 1) i p := ⟨p, by simpa [hb] using hp⟩
    simp [hr, hplace]
  · -- The index is refused by the values that are left.
    have hcut : (b.cut 1).values = ws := values_cut_one hb
    have hcap : (b.cut 1).capacity = b.capacity := rfl
    simp [hr, hcut, hcap, hb, hp]

/-- One value on a full stack. To replace the first value is refused, since the value that was the first is
the one that was taken, and the stack is left empty. -/
theorem run_replace_failure_lone :
    let s := (runAll HostOp.perform [.push (.integer 1)] (.ofCapacity 1)).2
    let r := (Machine.replace 1).perform s
    s.top = 1 ∧ r.1 = .error (.invalidIndex 1) ∧ r.2.values = [] ∧ r.2.top = 0 ∧ r.2.capacity = 1 := by
  intro s r
  obtain ⟨-, hleft, -⟩ := run_replace_failure 1 [.push (.integer 1)] 1
  have herror : r.1 = .error (.invalidIndex 1) := rfl
  rcases hleft _ herror with ⟨hempty, -⟩ | ⟨-, -, hvalues, htop, hcap⟩
  · cases hempty
  · exact ⟨rfl, herror, hvalues, htop, hcap⟩

/-- `replace` is not all-or-nothing: on one value it may fail with the value gone. -/
theorem run_replace_not_allOrNothing :
    ¬∀ (n : Nat) (ops : List HostOp) (i : Int) (e : Fault),
      let s := (runAll HostOp.perform ops (.ofCapacity n)).2
      let r := (Machine.replace i).perform s
      r.1 = .error e → r.2.values = s.values ∧ r.2.top = s.top ∧ r.2.capacity = s.capacity := by
  intro h
  obtain ⟨-, htop, -⟩ := h 1 [.push (.integer 1)] 1 (.invalidIndex 1) rfl
  cases htop

end LuaKernel
