import Mathlib
import LuaKernel.Proofs.Stack.BoundedList

/-!
# Rotation in place

Rotation as storage sees it: positions in 64 bits, a remainder that has the sign of the amount, a middle that
is computed in another way for each sign, and slots that are exchanged two by two. Every number has to fit
its width, and every slot has to be in a window of the storage, or there is a `Violation`.

* `exchanges_append`: exchanging the ends and going inward reverses a range.
* `middle_eq`: for either sign the middle is where the part that changes sides begins.
* `rotate_eq`: rotating in place commits no violation in the window from the index to the top, and is
  `Stack.rotate`.
-/

namespace LuaKernel

theorem Stack.position?_lt {s : Stack} {i : ℤ} {p : ℕ} (h : s.position? i = some p) : p < s.top := by
  unfold Stack.position? at h
  split at h
  · rename_i hvalid
    simp only [Stack.isValid, decide_eq_true_eq] at hvalid
    cases h
    omega
  · cases h

namespace InPlace

/-- What must not happen while slots are moved. -/
inductive Violation where
  /-- A number that 64 bits do not hold. -/
  | unsigned (n : ℤ)
  /-- A number that 64 bits with a sign do not hold. -/
  | signed (n : ℤ)
  /-- The remainder of a division by zero. -/
  | divisor
  /-- A slot that is not in the window, or not in the storage. -/
  | outside (p : ℕ)
deriving DecidableEq, Repr

abbrev Checked := Except Violation

/-! ## Numbers -/

def unsigned (n : ℤ) : Checked ℕ := if 0 ≤ n ∧ n < 2 ^ 64 then .ok n.toNat else .error (.unsigned n)

def signed (n : ℤ) : Checked ℤ := if -2 ^ 63 ≤ n ∧ n < 2 ^ 63 then .ok n else .error (.signed n)

/-- An index counted from the bottom. -/
def absIndex (top : ℕ) (i : Int64) : Checked ℤ :=
  if 0 ≤ i.toInt then return i.toInt
  else do
    let height ← signed top
    let below ← signed (i.toInt + height)
    signed (below + 1)

/-- The slot that an index addresses. -/
def position? (top : ℕ) (i : Int64) : Checked (Option ℕ) := do
  let a ← absIndex top i
  if 0 < a ∧ a.toNat ≤ top then return some (← unsigned (a - 1)) else return none

/-- The last slot that stays in the lower part while the slots from `first` to `last` are moved around by
`n` places. -/
def middle (first last : ℕ) (n : Int64) : Checked ℕ := do
  let distance ← unsigned (last - first)
  let count ← unsigned (distance + 1)
  let length ← signed count
  if length = 0 then throw .divisor
  let r := n.toInt.tmod length
  if 0 ≤ r then unsigned (last - r)
  else do
    let next ← unsigned (first + r.natAbs)
    unsigned (next - 1)

/-! ## Slots -/

/-- The slots from `first` up to but not including `stop`. -/
structure Window where
  first : ℕ
  stop : ℕ

/-- Exchanges two slots. -/
def exchange (w : Window) (p q : ℕ) (slots : Array Value) : Checked (Array Value) :=
  if p < w.first ∨ w.stop ≤ p ∨ slots.size ≤ p then throw (.outside p)
  else if q < w.first ∨ w.stop ≤ q ∨ slots.size ≤ q then throw (.outside q)
  else return slots.swapIfInBounds p q

/-- Exchanges two slots and goes inward from both, for a number of pairs. -/
def exchanges (w : Window) : (pairs p q : ℕ) → Array Value → Checked (Array Value)
  | 0, _, _, slots => return slots
  | pairs + 1, p, q, slots => do
    let slots ← exchange w p q slots
    let p ← unsigned (p + 1)
    let q ← unsigned (q - 1)
    exchanges w pairs p q slots

/-- Reverses the slots from `p` to `q`, of which there may be none. -/
def reverse (w : Window) (p q : ℕ) (slots : Array Value) : Checked (Array Value) :=
  if p < q then exchanges w ((q + 1 - p) / 2) p q slots else return slots

/-- Reverses the slots from `first` to `m`, those after them, and all of them. -/
def turn (w : Window) (first last m : ℕ) (slots : Array Value) : Checked (Array Value) := do
  let slots ← reverse w first m slots
  let next ← unsigned (m + 1)
  let slots ← reverse w next last slots
  reverse w first last slots

/-- Rotates in place, in the window from the index to the top. -/
def rotate (i n : Int64) (s : Stack) : Checked (Except Fault Unit × Stack) := do
  match ← position? s.top i with
  | none => return (.error (.invalidIndex i.toInt), s)
  | some first =>
    let last ← unsigned (s.top - 1)
    let m ← middle first last n
    let slots ← turn { first, stop := s.top } first last m s.slots
    return (.ok (), { s with slots })

/-! ## No number leaves its width -/

theorem ok_bind {α β : Type} (a : α) (f : α → Checked β) : (Except.ok a >>= f) = f a := rfl

theorem unsigned_eq {n : ℤ} {k : ℕ} (h : n = k) (hk : k < 2 ^ 64) : unsigned n = .ok k := by
  subst h
  rw [unsigned, if_pos (by omega), Int.toNat_natCast]

theorem signed_eq {n : ℤ} (hlow : -2 ^ 63 ≤ n) (hhigh : n < 2 ^ 63) : signed n = .ok n :=
  if_pos ⟨hlow, hhigh⟩

section
variable {s : Stack} (htop : s.top < 2 ^ 63) (i : Int64)
include htop

theorem absIndex_eq : absIndex s.top i = .ok (s.absIndex i.toInt) := by
  have hlow := i.le_toInt
  unfold absIndex Stack.absIndex
  split
  · rfl
  · rw [signed_eq (by omega) (by omega), ok_bind, signed_eq (by omega) (by omega), ok_bind,
      signed_eq (by omega) (by omega)]

theorem position?_eq : position? s.top i = .ok (s.position? i.toInt) := by
  rw [position?, absIndex_eq htop i, ok_bind, Stack.position?, Stack.isValid]
  simp only [decide_eq_true_eq, Int.toNat_le]
  split
  · rw [unsigned_eq (k := (s.absIndex i.toInt).toNat - 1) (by omega) (by omega)]
    rfl
  · rfl

end

/-- The remainder that keeps the sign, and the one that is never negative. -/
theorem emod_eq_tmod_of_pos (n : ℤ) {length : ℤ} (h : 0 < length) :
    n % length = if 0 ≤ n.tmod length then n.tmod length else n.tmod length + length := by
  have hmod := Int.tmod_eq_emod (a := n) (b := length)
  have hnonneg := Int.emod_nonneg n h.ne'
  have hlt := Int.emod_lt_of_pos n h
  split_ifs at hmod ⊢ <;> omega

/-- **The middle**, whichever sign the remainder has. -/
theorem middle_eq {first stop : ℕ} (hfirst : first < stop) (hstop : stop < 2 ^ 63) (n : Int64) :
    ∃ m, middle first (stop - 1) n = .ok m ∧ first ≤ m ∧ m < stop ∧
      m + 1 = stop - (n.toInt % ((stop - first : ℕ) : ℤ)).toNat := by
  have hdistance : unsigned ((stop - 1 : ℕ) - (first : ℤ)) = .ok (stop - first - 1) :=
    unsigned_eq (by omega) (by omega)
  have hcount : unsigned ((stop - first - 1 : ℕ) + 1) = .ok (stop - first) :=
    unsigned_eq (by omega) (by omega)
  have hlength : signed (stop - first : ℕ) = .ok ((stop - first : ℕ) : ℤ) :=
    signed_eq (by omega) (by omega)
  have hpos : (0 : ℤ) < (stop - first : ℕ) := by omega
  have hlow := Int.lt_tmod_of_pos n.toInt hpos
  have hhigh := Int.tmod_lt_of_pos n.toInt hpos
  rw [emod_eq_tmod_of_pos n.toInt hpos]
  rw [middle, hdistance, ok_bind, hcount, ok_bind, hlength, ok_bind, if_neg hpos.ne']
  generalize n.toInt.tmod ((stop - first : ℕ) : ℤ) = r at hlow hhigh ⊢
  by_cases hr : 0 ≤ r
  · simp only [if_pos hr]
    refine ⟨stop - 1 - r.toNat, unsigned_eq (by omega) (by omega), by omega, by omega, by omega⟩
  · simp only [if_neg hr]
    have hnext : unsigned (first + r.natAbs) = .ok (first + r.natAbs) := unsigned_eq (by omega) (by omega)
    rw [hnext, ok_bind]
    exact ⟨first + r.natAbs - 1, unsigned_eq (by omega) (by omega), by omega, by omega, by omega⟩

/-! ## No slot outside the window is touched -/

theorem reverse_eq_self {y : List Value} (h : y.length < 2) : y.reverse = y := by
  rcases y with _ | ⟨a, _ | ⟨b, y⟩⟩
  · rfl
  · rfl
  · simp at h

theorem swap_append (x y z : List Value) (a b : Value) :
    (x ++ (a :: (y ++ [b])) ++ z).toArray.swapIfInBounds x.length (x.length + y.length + 1) =
      (x ++ (b :: (y ++ [a])) ++ z).toArray := by
  apply Array.ext
  · simp
  · intro k hk hk'
    simp only [Array.getElem_swapIfInBounds]
    grind

section
variable {w : Window} {x z : List Value}

theorem exchange_append {y : List Value} (a b : Value) (hfirst : w.first ≤ x.length)
    (hstop : x.length + y.length + 2 ≤ w.stop) :
    exchange w x.length (x.length + y.length + 1) (x ++ (a :: (y ++ [b])) ++ z).toArray =
      .ok (x ++ (b :: (y ++ [a])) ++ z).toArray := by
  rw [exchange, if_neg (by simp; omega), if_neg (by simp; omega), swap_append]
  rfl

/-- **Exchanging the ends and going inward** reverses a range. -/
theorem exchanges_append {y : List Value} {pairs p q : ℕ} (hpairs : pairs = y.length / 2)
    (hp : p = x.length) (hq : q + 1 = x.length + y.length) (hfirst : w.first ≤ x.length)
    (hstop : x.length + y.length ≤ w.stop) (hsize : x.length + y.length < 2 ^ 64) :
    exchanges w pairs p q (x ++ y ++ z).toArray = .ok (x ++ y.reverse ++ z).toArray := by
  induction pairs generalizing x y z p q with
  | zero =>
    rw [reverse_eq_self (by omega)]
    rfl
  | succ pairs ih =>
    -- The ends of the range, and what is between them.
    obtain ⟨a, y, b, rfl⟩ : ∃ a t b, y = a :: (t ++ [b]) := by
      rcases y with _ | ⟨a, y⟩
      · simp at hpairs
      rcases List.eq_nil_or_concat' y with rfl | ⟨y, b, rfl⟩
      · simp at hpairs
      · exact ⟨a, y, b, rfl⟩
    have hlength : (a :: (y ++ [b])).length = y.length + 2 := by simp
    rw [hlength] at hpairs hq hstop hsize
    have hq' : q = x.length + y.length + 1 := by omega
    subst hp hq'
    rw [exchanges, exchange_append a b hfirst (by omega), ok_bind,
      unsigned_eq (k := x.length + 1) (by omega) (by omega), ok_bind,
      unsigned_eq (k := x.length + y.length) (by omega) (by omega), ok_bind]
    have hinner := ih (x := x ++ [b]) (y := y) (z := a :: z) (p := x.length + 1)
      (q := x.length + y.length) (by omega) (by simp) (by simp; omega) (by simp; omega) (by simp; omega)
      (by simp; omega)
    simpa using hinner

end

theorem exists_range {slots : Array Value} {p r : ℕ} (hp : p ≤ r) (hr : r ≤ slots.size) :
    ∃ x y z : List Value, slots = (x ++ y ++ z).toArray ∧ p = x.length ∧ r = x.length + y.length := by
  refine ⟨slots.toList.take p, (slots.toList.drop p).take (r - p), slots.toList.drop r, ?_, ?_, ?_⟩
  · have hrest : slots.toList.drop r = (slots.toList.drop p).drop (r - p) := by
      rw [List.drop_drop, Nat.add_sub_cancel' hp]
    rw [hrest, List.append_assoc, List.take_append_drop, List.take_append_drop]
  · simp; omega
  · simp; omega

theorem size_reverseRange {slots : Array Value} {p r : ℕ} (hp : p ≤ r) (hr : r ≤ slots.size) :
    (Stack.reverseRange slots p r).size = slots.size := by
  simp [Stack.reverseRange]
  omega

section
variable {w : Window} {slots : Array Value} (hslots : w.stop ≤ slots.size) (hsize : slots.size < 2 ^ 63)
include hslots hsize

theorem reverse_eq {p q : ℕ} (hp : w.first ≤ p) (hpq : p ≤ q + 1) (hq : q < w.stop) :
    reverse w p q slots = .ok (Stack.reverseRange slots p (q + 1)) := by
  obtain ⟨x, y, z, rfl, rfl, hr⟩ := exists_range hpq (show q + 1 ≤ slots.size by omega)
  rw [BoundedList.reverseRange_append x y z rfl hr, reverse]
  split
  · exact exchanges_append (by omega) rfl hr hp (by omega) (by simp at hsize; omega)
  · rw [reverse_eq_self (by omega)]
    rfl

/-- **Three reversals** in the window rotate it. -/
theorem turn_eq {m k : ℕ} (hfirst : w.first ≤ m) (hm : m < w.stop) (hk : m + 1 = w.stop - k) :
    turn w w.first (w.stop - 1) m slots = .ok (Stack.rotateRange slots w.first w.stop k) := by
  have hstop : w.stop - 1 + 1 = w.stop := by omega
  have hlower : (Stack.reverseRange slots w.first (m + 1)).size = slots.size :=
    size_reverseRange (by omega) (by omega)
  have hupper : (Stack.reverseRange (Stack.reverseRange slots w.first (m + 1)) (m + 1) w.stop).size =
      (Stack.reverseRange slots w.first (m + 1)).size := size_reverseRange (by omega) (by omega)
  rw [turn, reverse_eq hslots hsize le_rfl (by omega) hm, ok_bind,
    unsigned_eq (k := m + 1) (by omega) (by omega), ok_bind,
    reverse_eq (by omega) (by omega) (by omega) (by omega) (by omega), ok_bind, hstop,
    reverse_eq (by omega) (by omega) le_rfl (by omega) (by omega), hstop, Stack.rotateRange, ← hk]

end

/-- **Rotating in place** commits no violation, and is the rotation of the stack. -/
theorem rotate_eq {s : Stack} (htop : s.top ≤ s.slots.size) (hsize : s.slots.size < 2 ^ 63) (i n : Int64) :
    rotate i n s = .ok ((Stack.rotate i.toInt n.toInt).perform s) := by
  rw [rotate, position?_eq (by omega), ok_bind, Stack.perform_rotate]
  cases hp : s.position? i.toInt with
  | none => rfl
  | some first =>
    have hfirst : first < s.top := Stack.position?_lt hp
    obtain ⟨m, hm, hlow, hhigh, hmiddle⟩ := middle_eq hfirst (by omega) n
    have hlast : unsigned (s.top - 1) = .ok (s.top - 1) := unsigned_eq (by omega) (by omega)
    have hturn := turn_eq (w := { first, stop := s.top }) htop hsize hlow hhigh hmiddle
    simp only [hlast, ok_bind, hm]
    rw [hturn]
    rfl

end InPlace

end LuaKernel
