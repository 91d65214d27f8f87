import LuaKernel.Proofs.Machine.ListEffects

/-!
# Moving values is editing a list

The host's operations that move values are the plain edits of the list of values. `Addresses length i p`
says without a stack which place an index stands for, from the bottom or from the top, and
`act.Leaves s vs` that an action succeeds and leaves the values `vs`.

* `place?_eq_some_iff`: a stack finds the places that indices address.
* `leaves_insert` to `leaves_replace`: each operation on the stack that stores a list. A value is inserted
  by a rotation by one, and replaces the one that its index addresses once it is gone from the top.
* `perform_push_insert_remove`: what was inserted can be removed.
* `run_edits`: all this after any run of operations.
-/

namespace LuaKernel

/-- The place in a list of values that an index addresses: counted from one at the bottom, or from minus
one at the top. -/
inductive Addresses (length : Nat) : Int → Nat → Prop
  | fromBottom {p : Nat} (h : p < length) : Addresses length (p + 1) p
  | fromTop {p : Nat} (h : p < length) : Addresses length (p - length) p

theorem addresses_iff {length : Nat} {i : Int} {p : Nat} :
    Addresses length i p ↔ p < length ∧ (i = p + 1 ∨ i = p - length) := by
  constructor
  · rintro (h | h)
    · exact ⟨h, .inl rfl⟩
    · exact ⟨h, .inr rfl⟩
  · rintro ⟨h, rfl | rfl⟩
    · exact .fromBottom h
    · exact .fromTop h

instance (length : Nat) (i : Int) (p : Nat) : Decidable (Addresses length i p) :=
  decidable_of_iff _ addresses_iff.symm

/-- The action succeeds and leaves the values `vs`, with the capacity there was. -/
def StackM.Leaves (act : StackM Unit) (s : Stack) (vs : List Value) : Prop :=
  ∃ t, act.perform s = (.ok (), t) ∧ t.values = vs ∧ t.top = vs.length ∧ t.capacity = s.capacity

namespace BoundedList

variable {b : BoundedList} {i : Int} {p : Nat} {ws : List Value} {x : Value}

theorem leaves_of_refines {act : StackM Unit} {f : BoundedList → Except Fault Unit × BoundedList}
    (h : act.Refines f) {b' : BoundedList} (hf : f b = (.ok (), b')) (hcap : b'.capacity = b.capacity) :
    act.Leaves b.toStack b'.values := by
  refine ⟨b'.toStack, ?_, values_toStack b', top_toStack b', ?_⟩
  · rw [h b, hf]
  · rw [capacity_toStack, capacity_toStack, hcap]

/-! ## Places -/

theorem place?_eq_some_iff : b.place? i = some p ↔ Addresses b.values.length i p := by
  rw [addresses_iff, place?, Option.ite_none_right_eq_some, Option.some_inj, denote]
  split <;> omega

theorem isSome_place?_iff : (b.place? i).isSome ↔ ∃ p, Addresses b.values.length i p := by
  simp only [Option.isSome_iff_exists, place?_eq_some_iff]

theorem getElem?_of_addresses (h : Addresses b.values.length i p) : b.values[p]? = some (b.valueAt i) := by
  have hplace := place?_eq_some_iff.2 h
  rw [valueAt, slot?, hplace, Option.bind_some, List.getElem?_eq_getElem (place?_lt hplace)]
  rfl

theorem valueAt_of_none (h : b.place? i = none) : b.valueAt i = .nil := by
  rw [valueAt, slot?, h]
  rfl

/-! ## Insertion and removal -/

theorem take_cons_drop (h : p ≤ ws.length) (x : Value) : ws.take p ++ x :: ws.drop p = ws.insertIdx p x := by
  induction ws generalizing p with
  | nil =>
    obtain rfl : p = 0 := by simpa using h
    rfl
  | cons w ws ih =>
    cases p with
    | zero => rfl
    | succ p => simpa using ih (Nat.le_of_succ_le_succ h)

/-- A rotation by one toward the top puts the last value first. -/
theorem cycled_one (ws : List Value) (x : Value) : cycled (ws ++ [x]) 1 = x :: ws := by
  cases ws with
  | nil => simp [cycled]
  | cons w ws =>
    have hlong : 1 < (w :: ws ++ [x]).length := by simp
    have hmod : (1 % ((w :: ws ++ [x]).length : Int)).toNat = 1 := by
      rw [Int.emod_eq_of_lt (by omega) (by omega)]
      rfl
    have hlen : (w :: ws ++ [x]).length - 1 = (w :: ws).length := by simp
    rw [cycled, hmod, hlen, List.drop_left, List.take_left]
    rfl

theorem values_rotateFrom_one (hb : b.values = ws ++ [x]) (hp : p ≤ ws.length) :
    (b.rotateFrom p 1).values = ws.insertIdx p x := by
  show b.values.take p ++ cycled (b.values.drop p) 1 = _
  rw [hb, List.take_append_of_le_length hp, List.drop_append_of_le_length hp, cycled_one, take_cons_drop hp]

theorem rotate_of_addresses (h : Addresses b.values.length i p) (n : Int) :
    b.rotate i n = (.ok (), b.rotateFrom p n) := by
  rw [rotate, place?_eq_some_iff.2 h]

theorem remove_of_addresses (h : Addresses b.values.length i p) : b.remove i = (.ok (), b.erase p) := by
  rw [remove, place?_eq_some_iff.2 h]

theorem leaves_insert (hb : b.values = ws ++ [x]) (h : Addresses b.values.length i p) :
    (Machine.insert i).Leaves b.toStack (ws.insertIdx p x) := by
  have hp : p ≤ ws.length := by
    have hlt := (addresses_iff.1 h).1
    rw [hb, List.length_append] at hlt
    exact Nat.le_of_lt_succ hlt
  rw [← values_rotateFrom_one hb hp]
  exact leaves_of_refines (refines_rotate i 1) (rotate_of_addresses h 1) rfl

theorem leaves_remove (h : Addresses b.values.length i p) :
    (Machine.remove i).Leaves b.toStack (b.values.eraseIdx p) :=
  leaves_of_refines (refines_remove i) (remove_of_addresses h) rfl

/-! ## Taking, copying and replacing -/

theorem leaves_pop {n : Nat} (hn : n ≤ b.values.length) :
    (Machine.pop n).Leaves b.toStack (b.values.take (b.values.length - n)) := by
  have hdiscard : b.discard n = (.ok (), b.cut n) := by rw [discard, if_neg (by omega)]
  exact leaves_of_refines (refines_discard n) hdiscard rfl

theorem store_of_addresses (h : Addresses b.values.length i p) (v : Value) :
    b.store i v = (.ok (), b.replaceAt p v) := by
  rw [store, place?_eq_some_iff.2 h]

theorem leaves_copy (h : Addresses b.values.length i p) (j : Int) :
    (Machine.copy j i).Leaves b.toStack (b.values.set p (b.valueAt j)) :=
  leaves_of_refines (refines_host (.copy j i)) (store_of_addresses h _) rfl

theorem push_of_lt (h : b.values.length < b.capacity) (v : Value) :
    b.push v = (.ok (), b.withValues (b.values ++ [v]) (by rw [List.length_append]; exact h)) := by
  rw [push, dif_pos h]

theorem leaves_pushValue (h : b.values.length < b.capacity) (i : Int) :
    (Machine.pushValue i).Leaves b.toStack (b.values ++ [b.valueAt i]) :=
  leaves_of_refines (refines_host (.pushValue i)) (push_of_lt h _) rfl

theorem values_cut_one (hb : b.values = ws ++ [x]) : (b.cut 1).values = ws := by
  show b.values.take (b.values.length - 1) = ws
  simp [hb]

theorem pop_concat (hb : b.values = ws ++ [x]) : b.pop = (.ok x, b.cut 1) := by
  rw [pop_of_pos b (by simp [hb])]
  simp [hb]

/-- A value is replaced at a place that is looked up in what is left of the list. -/
theorem replace_concat (hb : b.values = ws ++ [x]) (i : Int) : b.replace i = (b.cut 1).store i x := by
  rw [replace, pop_concat hb]

theorem replace_of_addresses (hb : b.values = ws ++ [x]) (h : Addresses ws.length i p) :
    b.replace i = (.ok (), (b.cut 1).replaceAt p x) := by
  rw [replace_concat hb]
  exact store_of_addresses (by rwa [values_cut_one hb]) x

theorem leaves_replace (hb : b.values = ws ++ [x]) (h : Addresses ws.length i p) :
    (Machine.replace i).Leaves b.toStack (ws.set p x) := by
  have hvalues : ((b.cut 1).replaceAt p x).values = ws.set p x :=
    congrArg (List.set · p x) (values_cut_one hb)
  rw [← hvalues]
  exact leaves_of_refines (refines_replace i) (replace_of_addresses hb h) rfl

/-! ## Insertion undone -/

theorem erase_rotateFrom_one {b' : BoundedList} (hvalues : b'.values = b.values ++ [x])
    (hcap : b'.capacity = b.capacity) (hp : p ≤ b.values.length) : (b'.rotateFrom p 1).erase p = b := by
  obtain ⟨vs, n, hfits⟩ := b
  have herase : (b'.rotateFrom p 1).values.eraseIdx p = vs := by
    rw [values_rotateFrom_one hvalues hp, List.eraseIdx_insertIdx_self]
  have hcap' : (b'.rotateFrom p 1).capacity = n := hcap
  simp only [erase, withValues, herase, hcap']

/-- A value that is pushed and inserted at a place is the one that is removed there. -/
theorem perform_push_insert_remove (hroom : b.values.length < b.capacity) (v : Value)
    (h : Addresses (b.values.length + 1) i p) :
    (do Stack.push v; Machine.insert i; Machine.remove i).perform b.toStack = (.ok (), b.toStack) := by
  have hp : p ≤ b.values.length := Nat.le_of_lt_succ (addresses_iff.1 h).1
  have hpush := push_of_lt hroom v
  generalize hb' : b.withValues (b.values ++ [v]) _ = b' at hpush
  have hvalues : b'.values = b.values ++ [v] := by rw [← hb']; rfl
  have hcap : b'.capacity = b.capacity := by rw [← hb']; rfl
  -- The rotation keeps the height, so the index stands for the same place in both steps.
  have hinsert : Addresses b'.values.length i p := by rwa [hvalues, List.length_append]
  have hremove : Addresses (b'.rotateFrom p 1).values.length i p := by
    rwa [show (b'.rotateFrom p 1).values.length = b'.values.length from length_take_cycled ..]
  simp only [StackM.perform_bind, refines_push v b, hpush, Machine.insert, refines_rotate i 1 b',
    rotate_of_addresses hinsert]
  rw [refines_remove, remove_of_addresses hremove, erase_rotateFrom_one hvalues hcap hp]

end BoundedList

open BoundedList

/-- **Moving values is editing the list of them**, after any run and for every index that addresses a place. The
place that `replace` writes is one of the values below the top. So what is pushed and inserted can be removed,
and the stack is as it was. -/
theorem run_edits (n : Nat) (ops : List HostOp) :
    let s := (runAll HostOp.perform ops (.ofCapacity n)).2
    let vs := s.values
    s.top = vs.length ∧
    (∀ i, s.isValid i ↔ ∃ p, Addresses vs.length i p) ∧
    (∀ i p, Addresses vs.length i p → vs[p]? = some (s.valueAt i)) ∧
    (∀ i, s.isValid i = false → s.valueAt i = .nil) ∧
    (∀ i p, Addresses vs.length i p →
      ∃ ws x, vs = ws ++ [x] ∧ (Machine.insert i).Leaves s (ws.insertIdx p x)) ∧
    (∀ i p, Addresses vs.length i p → (Machine.remove i).Leaves s (vs.eraseIdx p)) ∧
    (∀ k, k ≤ s.top → (Machine.pop k).Leaves s (vs.take (s.top - k))) ∧
    (∀ j i p, Addresses vs.length i p → (Machine.copy j i).Leaves s (vs.set p (s.valueAt j))) ∧
    (∀ i, s.top < s.capacity → (Machine.pushValue i).Leaves s (vs ++ [s.valueAt i])) ∧
    (∀ ws x i p, vs = ws ++ [x] → Addresses ws.length i p → (Machine.replace i).Leaves s (ws.set p x)) ∧
    ∀ v i p, s.top < s.capacity → Addresses (s.top + 1) i p →
      (do Stack.push v; Machine.insert i; Machine.remove i).perform s = (.ok (), s) := by
  rw [runAll_host]
  generalize (runAll host ops (empty n)).2 = b
  intro s vs
  have hvs : vs = b.values := values_toStack b
  have hroom : s.top < s.capacity → b.values.length < b.capacity := by
    rw [capacity_toStack]
    exact id
  simp only [hvs, s, isValid_toStack, valueAt_toStack]
  refine ⟨rfl, fun i => isSome_place?_iff, fun i p => getElem?_of_addresses,
    fun i h => valueAt_of_none (by simpa using h), fun i p h => ?_, fun i p => leaves_remove,
    fun k => leaves_pop, fun j i p h => leaves_copy h j, fun i h => leaves_pushValue (hroom h) i,
    fun ws x i p => leaves_replace, fun v i p h => perform_push_insert_remove (hroom h) v⟩
  rcases List.eq_nil_or_concat b.values with hnil | ⟨ws, x, hb⟩
  · rw [hnil] at h
    exact absurd (addresses_iff.1 h).1 (Nat.not_lt_zero p)
  · rw [List.concat_eq_append] at hb
    exact ⟨ws, x, hb, leaves_insert hb h⟩

/-- Three values with room for one more. The last is inserted at the bottom and written over the middle one,
which is the top of the other two; the middle one is removed, and copied from outside the stack. -/
theorem run_edits_three :
    let ops : List HostOp := [.push (.integer 1), .push (.integer 2), .push (.integer 3)]
    let s := (runAll HostOp.perform ops (.ofCapacity 4)).2
    (Machine.insert 1).Leaves s [.integer 3, .integer 1, .integer 2] ∧
      (Machine.remove (-2)).Leaves s [.integer 1, .integer 3] ∧
      (Machine.pop 2).Leaves s [.integer 1] ∧
      (Machine.copy 5 (-2)).Leaves s [.integer 1, .nil, .integer 3] ∧
      (Machine.pushValue (-3)).Leaves s [.integer 1, .integer 2, .integer 3, .integer 1] ∧
      (Machine.replace (-1)).Leaves s [.integer 1, .integer 3] ∧
      (do Stack.push .nil; Machine.insert (-4); Machine.remove (-4)).perform s = (.ok (), s) := by
  intro ops s
  obtain ⟨-, -, -, -, hinsert, hremove, hpop, hcopy, hpush, hreplace, hundone⟩ := run_edits 4 ops
  have hmiddle : Addresses s.values.length (-2) 1 := by decide
  obtain ⟨ws, x, hvs, hleaves⟩ := hinsert 1 0 (by decide)
  have hlast : [.integer 1, .integer 2] ++ [.integer 3] = ws ++ [x] := hvs
  obtain ⟨rfl, ⟨⟩⟩ := List.append_inj' hlast rfl
  exact ⟨hleaves, hremove (-2) 1 hmiddle, hpop 2 (by decide), hcopy 5 (-2) 1 hmiddle,
    hpush (-3) (by decide), hreplace [.integer 1, .integer 2] (.integer 3) (-1) 1 rfl (by decide),
    hundone .nil (-4) 0 (by decide) (by decide)⟩

end LuaKernel
