import LuaKernel.Stack

/-!
# Bounded lists and their storage

A stack stands for the list of its values and its capacity. `BoundedList.toStack` is the stack that stores
such a list: the values from the bottom up, and nil above them. `act.Refines f`: on the stack that stores
a list, the action `act` answers as `f` does on the list, and leaves the stack that stores the list `f`
leaves, so with nil above the values again.

* `values_toStack`, `capacity_toStack`, `absIndex_toStack`, `position?_toStack`, `slot?_toStack`: the views.
* `refines_push` to `refines_reserve`: each operation on a stack refines one on bounded lists.
* `rotateRange_append`: three reversals move the upper part of a range below the lower one.
-/

namespace LuaKernel

/-- A list of values that is no longer than its capacity. -/
structure BoundedList where
  values : List Value
  capacity : Nat
  fits : values.length ≤ capacity
deriving DecidableEq, Repr

namespace BoundedList

def empty (n : Nat) : BoundedList := ⟨[], n, Nat.zero_le n⟩

def withValues (b : BoundedList) (vs : List Value) (h : vs.length ≤ b.capacity) : BoundedList :=
  { values := vs, capacity := b.capacity, fits := h }

/-! ## Indices -/

/-- What an index denotes: itself, or from below zero its place under the top. -/
def denote (b : BoundedList) (i : Int) : Int := if 0 ≤ i then i else i + b.values.length + 1

/-- The place in the list that an index denotes. The places are denoted from one on. -/
def place? (b : BoundedList) (i : Int) : Option Nat :=
  if 1 ≤ b.denote i ∧ b.denote i ≤ b.values.length then some (b.denote i - 1).toNat else none

/-- The value that an index denotes. -/
def slot? (b : BoundedList) (i : Int) : Option Value := (b.place? i).bind fun k => b.values[k]?

theorem place?_lt {b : BoundedList} {i : Int} {k : Nat} (h : b.place? i = some k) :
    k < b.values.length := by
  unfold place? at h
  split at h
  · cases h
    omega
  · cases h

/-! ## Storage -/

/-- A list followed by nil up to a length. -/
def padded (vs : List Value) (n : Nat) : List Value := vs ++ List.replicate (n - vs.length) .nil

/-- The stack that stores a bounded list. -/
def toStack (b : BoundedList) : Stack :=
  { slots := (padded b.values b.capacity).toArray, top := b.values.length }

section
variable {vs : List Value} {n : Nat}

theorem length_padded (h : vs.length ≤ n) : (padded vs n).length = n := by
  simp [padded]; omega

theorem take_padded : (padded vs n).take vs.length = vs := by simp [padded]

theorem getElem?_padded {k : Nat} (hk : k < vs.length) : (padded vs n)[k]? = vs[k]? := by
  rw [padded, List.getElem?_append_left hk]

theorem set_padded {k : Nat} (hk : k < vs.length) (v : Value) :
    (padded vs n).set k v = padded (vs.set k v) n := by
  rw [padded, padded, List.set_append_left _ _ hk, List.length_set]

/-- The slot above the values is written by a push. -/
theorem set_padded_length (h : vs.length < n) (v : Value) :
    (padded vs n).set vs.length v = padded (vs ++ [v]) n := by
  obtain ⟨m, hm⟩ : ∃ m, n - vs.length = m + 1 := ⟨n - vs.length - 1, by omega⟩
  have hm' : n - (vs ++ [v]).length = m := by simp; omega
  rw [padded, padded, hm, hm', List.set_append_right _ _ (Nat.le_refl _)]
  simp [List.replicate_succ]

/-- The slot of the last value is cleared by a pop. -/
theorem set_padded_last (h : vs.length < n) (v : Value) :
    (padded (vs ++ [v]) n).set vs.length .nil = padded vs n := by
  obtain ⟨m, hm⟩ : ∃ m, n - vs.length = m + 1 := ⟨n - vs.length - 1, by omega⟩
  have hm' : n - (vs ++ [v]).length = m := by simp; omega
  rw [padded, padded, hm, hm', List.append_assoc, List.set_append_right _ _ (Nat.le_refl _)]
  simp [List.replicate_succ]

theorem padded_append (h : vs.length ≤ n) (m : Nat) :
    padded vs n ++ List.replicate m .nil = padded vs (n + m) := by
  have hlen : n + m - vs.length = (n - vs.length) + m := by omega
  rw [padded, padded, hlen, List.append_assoc, List.replicate_append_replicate]

end

variable (b : BoundedList)

theorem toStack_empty (n : Nat) : (empty n).toStack = Stack.ofCapacity n := by
  simp [toStack, empty, Stack.ofCapacity, padded]

/-! ## Views -/

@[simp] theorem top_toStack : b.toStack.top = b.values.length := rfl

@[simp] theorem size_toStack : b.toStack.slots.size = b.capacity := by
  simp [toStack, length_padded b.fits]

@[simp] theorem values_toStack : b.toStack.values = b.values := by
  simp [Stack.values, toStack, take_padded]

@[simp] theorem capacity_toStack : b.toStack.capacity = b.capacity := b.size_toStack

@[simp] theorem free_toStack : b.toStack.free = b.capacity - b.values.length := by
  rw [Stack.free, size_toStack, top_toStack]

@[simp] theorem absIndex_toStack (i : Int) : b.toStack.absIndex i = b.denote i := rfl

@[simp] theorem position?_toStack (i : Int) : b.toStack.position? i = b.place? i := by
  unfold Stack.position? Stack.isValid place?
  rw [absIndex_toStack, top_toStack]
  simp only [decide_eq_true_eq]
  by_cases h : 1 ≤ b.denote i ∧ b.denote i ≤ b.values.length
  · have hk : (b.denote i).toNat - 1 = (b.denote i - 1).toNat := by omega
    rw [if_pos (by omega), if_pos h, hk]
  · rw [if_neg (by omega), if_neg h]

@[simp] theorem isValid_toStack (i : Int) : b.toStack.isValid i = (b.place? i).isSome := by
  have h := b.position?_toStack i
  unfold Stack.position? at h
  rw [← h]
  cases b.toStack.isValid i <;> rfl

@[simp] theorem slot?_toStack (i : Int) : b.toStack.slot? i = b.slot? i := by
  rw [Stack.slot?, position?_toStack, slot?]
  cases h : b.place? i with
  | none => rfl
  | some k => simpa [toStack] using getElem?_padded (place?_lt h)

end BoundedList

/-- On the stack that stores a list, the action does what `f` does on the list. -/
def StackM.Refines {α : Type} (act : StackM α) (f : BoundedList → Except Fault α × BoundedList) : Prop :=
  ∀ b : BoundedList, act.perform b.toStack = ((f b).1, (f b).2.toStack)

namespace BoundedList

/-! ## Pushing, popping and writing -/

def push (v : Value) (b : BoundedList) : Except Fault Unit × BoundedList :=
  if h : b.values.length < b.capacity then
    (.ok (), b.withValues (b.values ++ [v]) (by rw [List.length_append]; exact h))
  else (.error .stackOverflow, b)

def pop (b : BoundedList) : Except Fault Value × BoundedList :=
  if h : b.values = [] then (.error .stackUnderflow, b)
  else (.ok (b.values.getLast h), b.withValues b.values.dropLast (by have := b.fits; simp; omega))

def replaceAt (k : Nat) (v : Value) (b : BoundedList) : BoundedList :=
  b.withValues (b.values.set k v) (by simpa using b.fits)

/-- Replaces the value that an index denotes, and says whether there is one. -/
def overwrite (i : Int) (v : Value) (b : BoundedList) : Except Fault Bool × BoundedList :=
  match b.place? i with
  | none => (.ok false, b)
  | some k => (.ok true, b.replaceAt k v)

/-- Replaces the value that an index denotes, which has to be there. -/
def store (i : Int) (v : Value) (b : BoundedList) : Except Fault Unit × BoundedList :=
  match b.place? i with
  | none => (.error (.invalidIndex i), b)
  | some k => (.ok (), b.replaceAt k v)

theorem refines_push (v : Value) : (Stack.push v).Refines (push v) := by
  intro b
  have hfits := b.fits
  rw [Stack.perform_push, size_toStack, top_toStack, push]
  by_cases h : b.values.length < b.capacity
  · rw [if_neg (by omega), dif_pos h]
    simp [toStack, withValues, set_padded_length h]
  · rw [if_pos (by omega), dif_neg h]

theorem refines_pop : Stack.pop.Refines pop := by
  intro b
  rw [Stack.perform_pop, top_toStack, pop]
  obtain ⟨vs, n, hfits⟩ := b
  rcases List.eq_nil_or_concat vs with rfl | ⟨vs, v, rfl⟩
  · rfl
  · simp only [List.concat_eq_append] at hfits ⊢
    have hlt : vs.length < n := by simp at hfits; omega
    have hlast : (padded (vs ++ [v]) n)[vs.length]? = some v := by
      rw [getElem?_padded (by simp)]; simp
    simp [toStack, withValues, set_padded_last hlt, hlast]

theorem toStack_replaceAt {b : BoundedList} {k : Nat} (hk : k < b.values.length) (v : Value) :
    (b.replaceAt k v).toStack = { b.toStack with slots := b.toStack.slots.setIfInBounds k v } := by
  simp [toStack, replaceAt, withValues, set_padded hk]

theorem refines_overwrite (i : Int) (v : Value) : (Stack.overwrite i v).Refines (overwrite i v) := by
  intro b
  rw [Stack.perform_overwrite, position?_toStack, overwrite]
  cases h : b.place? i with
  | none => rfl
  | some k => simp only [toStack_replaceAt (place?_lt h)]

theorem refines_store (i : Int) (v : Value) : (Stack.store i v).Refines (store i v) := by
  intro b
  rw [Stack.perform_store, position?_toStack, store]
  cases h : b.place? i with
  | none => rfl
  | some k => simp only [toStack_replaceAt (place?_lt h)]

/-! ## Rotation -/

theorem reverseRange_append (x y z : List Value) {start stop : Nat} (hstart : start = x.length)
    (hstop : stop = x.length + y.length) :
    Stack.reverseRange (x ++ y ++ z).toArray start stop = (x ++ y.reverse ++ z).toArray := by
  subst hstart hstop
  have hz : x.length + (y.length + z.length) - (x.length + y.length) = z.length := by omega
  unfold Stack.reverseRange
  simp [List.extract_eq_take_drop, hz]

/-- **Three reversals** put the upper part of a range below the lower one. -/
theorem rotateRange_append (x u v z : List Value) :
    Stack.rotateRange (x ++ (u ++ v) ++ z).toArray x.length (x.length + (u ++ v).length) v.length =
      (x ++ (v ++ u) ++ z).toArray := by
  have hmiddle : x.length + (u ++ v).length - v.length = x.length + u.length := by simp; omega
  have hstart : x.length + u.length = (x ++ u.reverse).length := by simp
  have hstop : x.length + (u ++ v).length = (x ++ u.reverse).length + v.length := by simp; omega
  have hstop' : x.length + (u ++ v).length = x.length + (u.reverse ++ v.reverse).length := by simp
  have hlower := reverseRange_append x u (v ++ z) rfl rfl
  have hupper := reverseRange_append (x ++ u.reverse) v z hstart hstop
  have hwhole := reverseRange_append x (u.reverse ++ v.reverse) z rfl hstop'
  simp only [List.append_assoc, List.reverse_append, List.reverse_reverse] at hlower hupper hwhole ⊢
  rw [Stack.rotateRange, hmiddle, hlower, hupper, hwhole]

/-- The list moved around by `n mod length` places toward its end: that many of its last values come
first. -/
def cycled (vs : List Value) (n : Int) : List Value :=
  let k := (n % (vs.length : Int)).toNat
  vs.drop (vs.length - k) ++ vs.take (vs.length - k)

theorem length_take_cycled (vs : List Value) (k : Nat) (n : Int) :
    (vs.take k ++ cycled (vs.drop k) n).length = vs.length := by
  simp [cycled]; omega

/-- The list with its values from a place on moved around. -/
def rotateFrom (k : Nat) (n : Int) (b : BoundedList) : BoundedList :=
  b.withValues (b.values.take k ++ cycled (b.values.drop k) n)
    (by rw [length_take_cycled]; exact b.fits)

/-- Moves the values from an index on around, toward the top for a positive `n`. -/
def rotate (i n : Int) (b : BoundedList) : Except Fault Unit × BoundedList :=
  match b.place? i with
  | none => (.error (.invalidIndex i), b)
  | some k => (.ok (), b.rotateFrom k n)

theorem rotateRange_padded {vs : List Value} {k : Nat} (hk : k < vs.length) (n : Int) (cap : Nat) :
    Stack.rotateRange (padded vs cap).toArray k vs.length (n % ((vs.length - k : Nat) : Int)).toNat =
      (padded (vs.take k ++ cycled (vs.drop k) n) cap).toArray := by
  have hlen : (vs.drop k).length = vs.length - k := List.length_drop
  have hx : (vs.take k).length = k := List.length_take_of_le (Nat.le_of_lt hk)
  have hpos : (0 : Int) < ((vs.length - k : Nat) : Int) := by omega
  have hlt := Int.emod_lt_of_pos n hpos
  rw [padded, padded, length_take_cycled, cycled, hlen]
  generalize hj : (n % ((vs.length - k : Nat) : Int)).toNat = j
  -- The values are those below the place, and two parts that change sides.
  have hv : ((vs.drop k).drop (vs.length - k - j)).length = j := by simp; omega
  have hsplit := rotateRange_append (vs.take k) ((vs.drop k).take (vs.length - k - j))
    ((vs.drop k).drop (vs.length - k - j)) (List.replicate (cap - vs.length) .nil)
  rwa [List.take_append_drop, List.take_append_drop, hx, hv, hlen,
    Nat.add_sub_cancel' (Nat.le_of_lt hk)] at hsplit

theorem refines_rotate (i n : Int) : (Stack.rotate i n).Refines (rotate i n) := by
  intro b
  rw [Stack.perform_rotate, position?_toStack, rotate]
  cases h : b.place? i with
  | none => rfl
  | some k =>
    have hlength := length_take_cycled b.values k n
    simp only [toStack, rotateFrom, withValues, rotateRange_padded (place?_lt h), hlength]

/-! ## Height and capacity -/

theorem perform_popMany_toStack (n : Nat) (b : BoundedList) (hn : n ≤ b.values.length) :
    (Stack.popMany n).perform b.toStack = (.ok (), (b.withValues
      (b.values.take (b.values.length - n)) (Nat.le_trans (List.length_take_le' ..) b.fits)).toStack) := by
  induction n generalizing b with
  | zero => simp [Stack.popMany, withValues]
  | succ n ih =>
    have hne : b.values ≠ [] := by rintro h; simp [h] at hn
    have htake : b.values.dropLast.take (b.values.dropLast.length - n) =
        b.values.take (b.values.length - (n + 1)) := by
      rw [List.dropLast_eq_take, List.take_take, List.length_take]
      congr 1
      omega
    rw [Stack.popMany, StackM.perform_bind, refines_pop b, pop, dif_neg hne]
    simp only
    rw [ih _ (by simp [withValues]; omega)]
    simp only [withValues, htake]

theorem perform_pushNils_toStack (n : Nat) (b : BoundedList) (hn : b.values.length + n ≤ b.capacity) :
    (Stack.pushNils n).perform b.toStack = (.ok (), (b.withValues
      (b.values ++ List.replicate n .nil) (by simpa using hn)).toStack) := by
  induction n generalizing b with
  | zero => simp [Stack.pushNils, withValues]
  | succ n ih =>
    rw [Stack.pushNils, StackM.perform_bind, refines_push .nil b, push, dif_pos (by omega)]
    simp only
    rw [ih _ (by simp [withValues]; omega)]
    simp [withValues, List.replicate_succ]

/-- The list cut off or filled up with nil to a length. -/
def resize (n : Nat) (b : BoundedList) (h : n ≤ b.capacity) : BoundedList :=
  b.withValues (b.values.take n ++ List.replicate (n - b.values.length) .nil) (by simp; omega)

/-- Cuts off or fills up with nil to the length that an index denotes. -/
def setTop (i : Int) (b : BoundedList) : Except Fault Unit × BoundedList :=
  if b.denote i < 0 then (.error .stackUnderflow, b)
  else if h : (b.denote i).toNat ≤ b.capacity then (.ok (), b.resize (b.denote i).toNat h)
  else (.error .stackOverflow, b)

theorem refines_setTop (i : Int) : (Stack.setTop i).Refines (setTop i) := by
  intro b
  simp only [Stack.setTop, StackM.perform_bind, StackM.perform_get, absIndex_toStack, capacity_toStack,
    top_toStack, setTop]
  split
  · rfl
  generalize (b.denote i).toNat = n
  by_cases h : n ≤ b.capacity
  · rw [if_neg (by omega), dif_pos h, StackM.perform_bind, perform_popMany_toStack _ b (by omega)]
    simp only
    rw [perform_pushNils_toStack _ _ (by simp [withValues]; omega)]
    have htake : b.values.take (b.values.length - (b.values.length - n)) = b.values.take n := by
      by_cases hn : n ≤ b.values.length
      · rw [Nat.sub_sub_self hn]
      · rw [List.take_of_length_le (by omega), List.take_of_length_le (by omega)]
    simp [resize, withValues, htake]
  · rw [if_pos (by omega), dif_neg h]
    rfl

/-- The list with room for `n` more values. -/
def reserve (n : Nat) (b : BoundedList) : BoundedList :=
  { values := b.values
    capacity := max b.capacity (b.values.length + n)
    fits := Nat.le_trans b.fits (Nat.le_max_left ..) }

theorem refines_reserve (n : Nat) : (Stack.reserve n).Refines fun b => (.ok (), b.reserve n) := by
  intro b
  have hfits := b.fits
  show (Except.ok (), if b.toStack.free < n then _ else _) = _
  rw [free_toStack]
  split
  · have hcap : max b.capacity (b.values.length + n) =
        b.capacity + (n - (b.capacity - b.values.length)) := by omega
    simp [toStack, reserve, hcap, ← padded_append b.fits]
  · have hcap : max b.capacity (b.values.length + n) = b.capacity := by omega
    simp [toStack, reserve, hcap]

end BoundedList

end LuaKernel
