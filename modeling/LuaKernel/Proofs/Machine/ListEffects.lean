import LuaKernel.Proofs.Machine.Representation

/-!
# The host's operations on bounded lists

What each operation of a host does to the list that the machine's stack stores. As for the stack's own
operations, an operation of several steps refines one edit of the list, or none when it fails: `remove`
erases a value, `concat` puts one string for the values it takes. The two that fail after a change are
`replace`, which has taken the top value, and `arith`, which has taken its operands.

* `host`: the effect of an operation. `refines_host`: the operation refines it.
* `runAll_host_toStack`, `runAll_host`: so does a run.
-/

namespace LuaKernel

/-- How many operands an operator takes from the stack. -/
def ArithOp.arity (op : ArithOp) : Nat := if op.isUnary then 1 else 2

theorem ArithOp.arity_pos (op : ArithOp) : 0 < op.arity := by
  unfold arity
  split <;> decide

namespace BoundedList

/-! ## Effects -/

def valueAt (b : BoundedList) (i : Int) : Value := (b.slot? i).getD .nil

/-- The list without its last `n` values. -/
def cut (n : Nat) (b : BoundedList) : BoundedList :=
  b.withValues (b.values.take (b.values.length - n)) (Nat.le_trans (List.length_take_le' ..) b.fits)

/-- The list with one value for its last `n`. -/
def cutPush (n : Nat) (v : Value) (b : BoundedList) (h0 : 0 < n) (hn : n ≤ b.values.length) :
    BoundedList :=
  b.withValues (b.values.take (b.values.length - n) ++ [v]) (by have := b.fits; simp; omega)

def discard (n : Nat) (b : BoundedList) : Except Fault Unit × BoundedList :=
  if b.values.length < n then (.error .stackUnderflow, b) else (.ok (), b.cut n)

def replace (i : Int) (b : BoundedList) : Except Fault Unit × BoundedList :=
  match b.pop with
  | (.ok v, b') => b'.store i v
  | (.error e, b') => (.error e, b')

def erase (k : Nat) (b : BoundedList) : BoundedList :=
  b.withValues (b.values.eraseIdx k) (Nat.le_trans (List.length_eraseIdx_le ..) b.fits)

def remove (i : Int) (b : BoundedList) : Except Fault Unit × BoundedList :=
  match b.place? i with
  | none => (.error (.invalidIndex i), b)
  | some k => (.ok (), b.erase k)

/-- The string reading of the value at an index takes its place. -/
def stringify (i : Int) (b : BoundedList) : BoundedList :=
  match b.place? i, (b.slot? i).bind Value.toString? with
  | some k, some t => b.replaceAt k (.string t)
  | _, _ => b

/-- The operands on top go in any case. The last value is the right one, and the left one too of a unary
operator. -/
def arith (op : ArithOp) (b : BoundedList) : Except Fault Unit × BoundedList :=
  if h : op.arity ≤ b.values.length then
    have hpos := op.arity_pos
    match Value.arith op b.values[b.values.length - op.arity] b.values[b.values.length - 1] with
    | .ok r => (.ok (), b.cutPush op.arity r hpos h)
    | .error e => (.error e, b.cut op.arity)
  else (.error .stackUnderflow, b)

def length (i : Int) (b : BoundedList) : Except Fault Unit × BoundedList :=
  match b.valueAt i with
  | .string t => b.push (.integer (Int64.ofNat t.length))
  | v => (.error (.length v.kind), b)

def concat (n : Nat) (b : BoundedList) : Except Fault Unit × BoundedList :=
  if h0 : n = 0 then b.push (.string [])
  else if hn : b.values.length < n then (.error .stackUnderflow, b)
  else if n = 1 then (.ok (), b)
  else
    match Machine.join (b.values.drop (b.values.length - n)) with
    | .ok t => (.ok (), b.cutPush n (.string t) (Nat.pos_of_ne_zero h0) (Nat.le_of_not_lt hn))
    | .error e => (.error e, b)

/-- What an operation of a host does to the list. -/
def host (op : HostOp) (b : BoundedList) : Except Fault Unit × BoundedList :=
  match op with
  | .push v => b.push v
  | .pop n => b.discard n
  | .copy source target => b.store target (b.valueAt source)
  | .pushValue i => b.push (b.valueAt i)
  | .replace i => b.replace i
  | .insert i => b.rotate i 1
  | .remove i => b.remove i
  | .rotate i n => b.rotate i n
  | .setTop i => b.setTop i
  | .reserve n => (.ok (), b.reserve n)
  | .stringAt i | .stringAt? i => (.ok (), b.stringify i)
  | .arith op => b.arith op
  | .compare i j op => ((Value.compare op (b.valueAt i) (b.valueAt j)).map fun _ => (), b)
  | .length i => b.length i
  | .concat n => b.concat n

/-! ## Taking from the top -/

section
variable (b : BoundedList)

@[simp] theorem valueAt_toStack (i : Int) : b.toStack.valueAt i = b.valueAt i := by
  rw [Stack.valueAt, slot?_toStack, valueAt]

/-- What has been taken from leaves room for a value. -/
theorem push_cut {n : Nat} (h0 : 0 < n) (hn : n ≤ b.values.length) (v : Value) :
    (b.cut n).push v = (.ok (), b.cutPush n v h0 hn) := by
  have hroom : (b.cut n).values.length < (b.cut n).capacity := by
    have := b.fits
    simp [cut, withValues]
    omega
  rw [push, dif_pos hroom]
  rfl

theorem pop_of_pos (h : 0 < b.values.length) : b.pop = (.ok b.values[b.values.length - 1], b.cut 1) := by
  rw [pop, dif_neg (List.ne_nil_of_length_pos h), List.getLast_eq_getElem]
  simp [cut, withValues, List.dropLast_eq_take]

theorem cut_cut (m n : Nat) : (b.cut m).cut n = b.cut (m + n) := by
  have hmin : min (b.values.length - m - n) b.values.length = b.values.length - (m + n) := by omega
  simp [cut, withValues, List.take_take, hmin]

end

theorem refines_discard (n : Nat) : (Machine.pop n).Refines (discard n) := by
  intro b
  simp only [Machine.pop, StackM.perform_bind, StackM.perform_get, discard]
  by_cases h : b.toStack.top < n
  · rw [if_pos h, if_pos (by simpa using h)]
    rfl
  · have hfits := b.fits
    have hdenote : b.denote ((b.values.length - n : Nat) : Int) = (b.values.length - n : Nat) :=
      if_pos (Int.natCast_nonneg _)
    have hcut : b.resize (b.values.length - n) (by omega) = b.cut n := by simp [resize, cut]
    rw [if_neg h, if_neg (by simpa using h), refines_setTop, top_toStack, setTop, hdenote,
      if_neg (by omega), dif_pos (by rw [Int.toNat_natCast]; omega)]
    simp only [Int.toNat_natCast, hcut]

theorem refines_replace (i : Int) : (Machine.replace i).Refines (replace i) := by
  intro b
  rw [Machine.replace, StackM.perform_bind, refines_pop, replace]
  rcases b.pop with ⟨e | v, b'⟩
  · rfl
  · exact refines_store i v b'

/-! ## Removal -/

/-- A rotation by one toward the bottom puts the first value last. -/
theorem cycled_neg_one (v : Value) (vs : List Value) : cycled (v :: vs) (-1) = vs ++ [v] := by
  have hmod : (-1 % ((v :: vs).length : Int)).toNat = vs.length := by
    rw [List.length_cons, Int.emod_eq_add_self_emod, Int.emod_eq_of_lt] <;> omega
  have hone : (v :: vs).length - vs.length = 1 := by simp
  rw [cycled, hmod, hone]
  rfl

theorem cut_rotateFrom {b : BoundedList} {k : Nat} (hk : k < b.values.length) :
    (b.rotateFrom k (-1)).cut 1 = b.erase k := by
  have hdrop : b.values.drop k = b.values[k] :: b.values.drop (k + 1) := List.drop_eq_getElem_cons hk
  have hlen : (b.values.take k ++ (b.values.drop (k + 1) ++ [b.values[k]])).length - 1 =
      (b.values.take k ++ b.values.drop (k + 1)).length := by simp
  simp only [cut, rotateFrom, erase, withValues, hdrop, cycled_neg_one, hlen,
    List.eraseIdx_eq_take_drop_succ]
  simp only [← List.append_assoc, List.take_left]

/-- Once a value has been rotated to the top there is one to take. -/
theorem perform_pop_rotateFrom {b : BoundedList} {k : Nat} (hk : k < b.values.length) :
    (Machine.pop 1).perform (b.rotateFrom k (-1)).toStack = (.ok (), (b.erase k).toStack) := by
  have hlen : (b.rotateFrom k (-1)).values.length = b.values.length := length_take_cycled ..
  rw [refines_discard, discard, if_neg (by omega), cut_rotateFrom hk]

theorem refines_remove (i : Int) : (Machine.remove i).Refines (remove i) := by
  intro b
  rw [Machine.remove, StackM.perform_bind, refines_rotate, rotate, remove]
  cases h : b.place? i with
  | none => rfl
  | some k => exact perform_pop_rotateFrom (place?_lt h)

/-! ## Strings in place -/

theorem replaceAt_self {b : BoundedList} {k : Nat} {v : Value} (h : b.values[k]? = some v) :
    b.replaceAt k v = b := by
  obtain ⟨hk, rfl⟩ := List.getElem?_eq_some_iff.1 h
  simp [replaceAt, withValues]

theorem perform_stringAt?_toStack (i : Int) (b : BoundedList) : (Machine.stringAt? i).perform b.toStack =
    (.ok ((b.slot? i).bind Value.toString?), (b.stringify i).toStack) := by
  simp only [Machine.stringAt?, StackM.perform_bind, StackM.perform_get, slot?_toStack, stringify]
  cases hp : b.place? i with
  | none =>
    have hs : b.slot? i = none := by simp [slot?, hp]
    simp [hs]
  | some k =>
    have hs : b.slot? i = b.values[k]? := by simp [slot?, hp]
    obtain ⟨v, hv⟩ : ∃ v, b.slot? i = some v := ⟨_, hs.trans (List.getElem?_eq_getElem (place?_lt hp))⟩
    have hwrite (t : Bytes) : (Stack.overwrite i (.string t)).perform b.toStack =
        (.ok true, (b.replaceAt k (.string t)).toStack) := by
      rw [refines_overwrite, overwrite, hp]
    rw [hv] at hs ⊢
    cases v with
    | string t => simp [Value.toString?, replaceAt_self hs.symm]
    | nil => rfl
    | boolean c => rfl
    | integer n =>
      simp only [Value.toString?, StackM.perform_bind, hwrite]
      rfl
    | float x =>
      simp only [Value.toString?, StackM.perform_bind, hwrite]
      rfl

/-! ## Operators -/

/-- The last step of an operator, with its operands taken. -/
theorem perform_push_cut {b : BoundedList} {n : Nat} (h0 : 0 < n) (hn : n ≤ b.values.length)
    (x : Except Fault Value) :
    (ofExcept x >>= fun r => Stack.push r : StackM Unit).perform (b.cut n).toStack =
      match x with
      | .ok r => (.ok (), (b.cutPush n r h0 hn).toStack)
      | .error e => (.error e, (b.cut n).toStack) := by
  cases x with
  | error e => rfl
  | ok r =>
    show (Stack.push r).perform _ = _
    rw [refines_push, push_cut b h0 hn]

theorem refines_arith (op : ArithOp) : (Machine.arith op).Refines (arith op) := by
  intro b
  have harity : (if op.isUnary then 1 else 2) = op.arity := rfl
  simp only [Machine.arith, StackM.perform_bind, StackM.perform_get]
  rw [harity, arith]
  by_cases h : op.arity ≤ b.values.length
  · have hpos : 0 < b.values.length := Nat.lt_of_lt_of_le op.arity_pos h
    rw [if_neg (by rw [top_toStack]; omega), StackM.perform_bind, refines_pop, pop_of_pos b hpos, dif_pos h]
    cases hop : op.isUnary with
    | true =>
      have hone : op.arity = 1 := by rw [← harity, hop, if_pos rfl]
      simp only [if_true, StackM.perform_bind (pure _), StackM.perform_pure, hone,
        perform_push_cut Nat.zero_lt_one hpos]
      cases Value.arith op b.values[b.values.length - 1] b.values[b.values.length - 1] <;> rfl
    | false =>
      have htwo : op.arity = 2 := by rw [← harity, hop, if_neg (by decide)]
      rw [htwo] at h
      have hpos' : 0 < (b.cut 1).values.length := by simp [cut, withValues]; omega
      have hleft : (b.cut 1).values[(b.cut 1).values.length - 1] = b.values[b.values.length - 2] := by
        simp [cut, withValues, Nat.sub_sub]
      simp only [Bool.false_eq_true, if_false, StackM.perform_bind Stack.pop, refines_pop _,
        pop_of_pos _ hpos', hleft, cut_cut, htwo, perform_push_cut Nat.zero_lt_two h]
      cases Value.arith op b.values[b.values.length - 2] b.values[b.values.length - 1] <;> rfl
  · rw [if_pos (by rw [top_toStack]; omega), dif_neg h]
    rfl

theorem refines_length (i : Int) : (Machine.length i).Refines (length i) := by
  intro b
  simp only [Machine.length, StackM.perform_bind, StackM.perform_get, valueAt_toStack, length]
  cases b.valueAt i with
  | string t => exact refines_push _ b
  | nil => rfl
  | boolean c => rfl
  | integer n => rfl
  | float x => rfl

/-- Of two values or more one goes for good, so there is room for the string. -/
theorem refines_concat (n : Nat) : (Machine.concat n).Refines (concat n) := by
  intro b
  simp only [Machine.concat, StackM.perform_bind, StackM.perform_get, values_toStack, concat]
  by_cases h0 : n = 0
  · rw [if_pos h0, dif_pos h0]
    exact refines_push _ b
  rw [if_neg h0, dif_neg h0]
  by_cases hn : b.values.length < n
  · rw [if_pos (by simpa using hn), dif_pos hn]
    rfl
  rw [if_neg (by simpa using hn), dif_neg hn]
  by_cases h1 : n = 1
  · rw [if_pos h1, if_pos h1]
    rfl
  rw [if_neg h1, if_neg h1, top_toStack]
  cases Machine.join (b.values.drop (b.values.length - n)) with
  | error e => rfl
  | ok t =>
    show (Machine.pop n >>= fun _ => Stack.push (.string t)).perform b.toStack = _
    rw [StackM.perform_bind, refines_discard, discard, if_neg hn]
    simp only
    rw [refines_push, push_cut b (Nat.pos_of_ne_zero h0) (Nat.le_of_not_lt hn)]

/-! ## Every operation -/

/-- **One operation** of a host on the stack that stores a list is its effect on the list. -/
theorem refines_host (op : HostOp) : op.action.Refines (host op) := by
  cases op with
  | push v => exact refines_push v
  | pop n => exact refines_discard n
  | copy source target =>
    intro b
    simp only [HostOp.action, Machine.copy, StackM.perform_bind, StackM.perform_get, valueAt_toStack]
    exact refines_store target _ b
  | pushValue i =>
    intro b
    simp only [HostOp.action, Machine.pushValue, StackM.perform_bind, StackM.perform_get, valueAt_toStack]
    exact refines_push _ b
  | replace i => exact refines_replace i
  | insert i => exact refines_rotate i 1
  | remove i => exact refines_remove i
  | rotate i n => exact refines_rotate i n
  | setTop i => exact refines_setTop i
  | reserve n => exact refines_reserve n
  | stringAt i =>
    intro b
    simp only [HostOp.action, Machine.stringAt, StackM.perform_bind, perform_stringAt?_toStack]
    rfl
  | stringAt? i =>
    intro b
    simp only [HostOp.action, StackM.perform_bind, perform_stringAt?_toStack]
    rfl
  | arith op => exact refines_arith op
  | compare i j op =>
    intro b
    simp only [HostOp.action, Machine.compare, StackM.perform_bind, StackM.perform_get, valueAt_toStack,
      host]
    cases Value.compare op (b.valueAt i) (b.valueAt j) <;> rfl
  | length i => exact refines_length i
  | concat n => exact refines_concat n

/-- **A run** of a host's operations on the stack that stores a list is the run of their effects. -/
theorem runAll_host_toStack (ops : List HostOp) (b : BoundedList) : runAll HostOp.perform ops b.toStack =
    ((runAll host ops b).1, (runAll host ops b).2.toStack) :=
  runAll_simulates (fun op b => refines_host op b) ops b

theorem runAll_host (ops : List HostOp) (n : Nat) : runAll HostOp.perform ops (.ofCapacity n) =
    ((runAll host ops (empty n)).1, (runAll host ops (empty n)).2.toStack) := by
  rw [← toStack_empty, runAll_host_toStack]

end BoundedList

end LuaKernel
