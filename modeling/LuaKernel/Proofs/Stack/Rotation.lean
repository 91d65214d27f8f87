import Mathlib
import LuaKernel.Proofs.Stack.InPlace

/-!
# Rotation is a cyclic action

`Cycled p n s t`: the stack `t` is `s` with each value from slot `p` to the top moved around by `n` places,
and all else as it was. The relation says where each value goes, so it has one `t` for each `s`
(`Cycled.unique`), and amounts add up along it (`Cycled.trans`) modulo the number of values moved
(`Cycled.congr`). Rotating goes along it (`rotate_cycled`), and the laws of rotations follow.
-/

namespace LuaKernel.Stack

/-- The slot that lies `j` places up from slot `p`, where after the top comes `p` again. -/
def around (s : Stack) (p : ℕ) (j : ℤ) : ℕ := p + (j % ((s.top - p : ℕ) : ℤ)).toNat

/-- Each value from slot `p` to the top is moved around by `n` places. -/
structure Cycled (p : ℕ) (n : ℤ) (s t : Stack) : Prop where
  top : t.top = s.top
  capacity : t.capacity = s.capacity
  outside : ∀ q, q < p ∨ s.top ≤ q → t.slots[q]? = s.slots[q]?
  inside : ∀ j, t.slots[s.around p (j + n)]? = s.slots[s.around p j]?

/-! ## Laws of the relation -/

section
variable {s t : Stack} {p : ℕ}

theorem around_congr {j k : ℤ} (h : j ≡ k [ZMOD (s.top - p : ℕ)]) : s.around p j = s.around p k := by
  rw [around, around, h]

theorem around_of_top_eq (h : t.top = s.top) (p : ℕ) (j : ℤ) : t.around p j = s.around p j := by
  rw [around, around, h]

theorem exists_around {q : ℕ} (hp : p ≤ q) (hq : q < s.top) (n : ℤ) : ∃ j, s.around p (j + n) = q := by
  refine ⟨(q - p : ℕ) - n, ?_⟩
  rw [around, sub_add_cancel, Int.emod_eq_of_lt (by omega) (by omega)]
  omega

end

namespace Cycled

variable {p : ℕ} {m n k : ℤ} {s t u : Stack}

theorem refl (p : ℕ) (s : Stack) : Cycled p 0 s s := ⟨rfl, rfl, fun _ _ => rfl, fun j => by rw [add_zero]⟩

theorem congr (h : m ≡ n [ZMOD (s.top - p : ℕ)]) (ht : Cycled p n s t) : Cycled p m s t := by
  refine { ht with inside := fun j => ?_ }
  rw [around_congr (h.add_left j)]
  exact ht.inside j

/-- Amounts add up. -/
theorem trans (ht : Cycled p n s t) (hu : Cycled p k t u) : Cycled p (n + k) s u := by
  refine ⟨hu.top.trans ht.top, hu.capacity.trans ht.capacity, fun q hq => ?_, fun j => ?_⟩
  · rw [hu.outside q (by rwa [ht.top]), ht.outside q hq]
  · have hstep := hu.inside (j + n)
    rwa [around_of_top_eq ht.top, around_of_top_eq ht.top, ht.inside j, add_assoc] at hstep

/-- Every slot of the result is determined. -/
theorem unique (ht : Cycled p n s t) (hu : Cycled p n s u) : t = u := by
  have hslots : t.slots = u.slots := by
    apply Array.ext_getElem?
    intro q
    by_cases hq : q < p ∨ s.top ≤ q
    · rw [ht.outside q hq, hu.outside q hq]
    · obtain ⟨j, rfl⟩ := exists_around (s := s) (p := p) (q := q) (by omega) (by omega) n
      rw [ht.inside j, hu.inside j]
  cases t
  cases u
  simp only [mk.injEq]
  exact ⟨hslots, ht.top.trans hu.top.symm⟩

end Cycled

/-! ## Parts that change sides -/

section
variable {x y y' z : List Value}

theorem getElem?_middle {j : ℕ} (hj : j < y.length) : (x ++ y ++ z)[x.length + j]? = y[j]? := by
  rw [List.append_assoc, List.getElem?_append_right (by omega), Nat.add_sub_cancel_left,
    List.getElem?_append_left hj]

theorem getElem?_not_middle (hy : y.length = y'.length) {q : ℕ}
    (hq : q < x.length ∨ x.length + y.length ≤ q) : (x ++ y ++ z)[q]? = (x ++ y' ++ z)[q]? := by
  rw [List.append_assoc, List.append_assoc]
  rcases hq with hq | hq
  · rw [List.getElem?_append_left hq, List.getElem?_append_left hq]
  · rw [List.getElem?_append_right (by omega), List.getElem?_append_right (by omega),
      List.getElem?_append_right (by omega), List.getElem?_append_right (by omega), hy]

end

/-- Where each value of two parts that change sides goes. -/
theorem getElem?_exchanged {u v : List Value} {j : ℕ} (hj : j < u.length + v.length) :
    (v ++ u)[(j + v.length) % (u.length + v.length)]? = (u ++ v)[j]? := by
  by_cases hu : j < u.length
  · rw [Nat.mod_eq_of_lt (by omega), List.getElem?_append_left hu, List.getElem?_append_right (by omega),
      Nat.add_sub_cancel]
  · rw [Nat.mod_eq_sub_mod (by omega), Nat.mod_eq_of_lt (by omega), List.getElem?_append_left (by omega),
      List.getElem?_append_right (by omega)]
    congr 1
    omega

/-- A stack by its slots below a place, two parts from there to the top, and the slots above. -/
def ofParts (x u v z : List Value) : Stack :=
  { slots := (x ++ (u ++ v) ++ z).toArray, top := x.length + (u.length + v.length) }

theorem exists_ofParts {s : Stack} {p k : ℕ} (htop : s.top ≤ s.slots.size) (hp : p ≤ s.top)
    (hk : k ≤ s.top - p) : ∃ x u v z, s = ofParts x u v z ∧ x.length = p ∧ v.length = k := by
  obtain ⟨x, y, z, hslots, rfl, hy⟩ := InPlace.exists_range hp htop
  refine ⟨x, y.take (y.length - k), y.drop (y.length - k), z, ?_, rfl, by simp; omega⟩
  obtain ⟨slots, top⟩ := s
  simp only at hslots hy
  rw [ofParts, List.take_append_drop, ← List.length_append, List.take_append_drop, hslots, hy]

theorem drop_values_ofParts (x u v z : List Value) : (ofParts x u v z).values.drop x.length = u ++ v := by
  have hlength : x.length + (u.length + v.length) = (x ++ (u ++ v)).length := by simp
  rw [values, ofParts, hlength, List.take_left' rfl, List.drop_left' rfl]

theorem around_ofParts (x z : List Value) {u v : List Value} (h : 0 < u.length + v.length) (j : ℤ) :
    ∃ k < u.length + v.length, (ofParts x u v z).around x.length j = x.length + k ∧
      (ofParts x u v z).around x.length (j + v.length) =
        x.length + (k + v.length) % (u.length + v.length) := by
  have hpos : (0 : ℤ) < (u.length + v.length : ℕ) := by omega
  have hlength : (ofParts x u v z).top - x.length = u.length + v.length := Nat.add_sub_cancel_left ..
  have hnonneg := Int.emod_nonneg j hpos.ne'
  have hlt := Int.emod_lt_of_pos j hpos
  obtain ⟨k, hk⟩ : ∃ k : ℕ, j % ((u.length + v.length : ℕ) : ℤ) = k := Int.eq_ofNat_of_zero_le hnonneg
  refine ⟨k, by omega, by rw [around, hlength, hk, Int.toNat_natCast], ?_⟩
  rw [around, hlength, ← Int.emod_add_emod, hk]
  norm_cast

/-- **Two parts that change sides** move their values around by the length of the upper one. -/
theorem cycled_ofParts (x z : List Value) {u v : List Value} (h : 0 < u.length + v.length) :
    Cycled x.length v.length (ofParts x u v z) (ofParts x v u z) := by
  have hswap : (v ++ u).length = (u ++ v).length := by simp [Nat.add_comm]
  refine ⟨?_, ?_, fun q hq => ?_, fun j => ?_⟩
  · simp [ofParts, Nat.add_comm]
  · simp [capacity, ofParts]
    omega
  · have hq' : q < x.length ∨ x.length + (v ++ u).length ≤ q := by
      rw [hswap, List.length_append]
      exact hq
    simpa [ofParts] using getElem?_not_middle (z := z) hswap hq'
  · obtain ⟨k, hk, hj, hjv⟩ := around_ofParts x z h j
    rw [hj, hjv]
    have hplace := Nat.mod_lt (k + v.length) h
    simp only [ofParts, List.getElem?_toArray]
    rw [getElem?_middle (by simp; omega), getElem?_middle (by simp; omega), getElem?_exchanged hk]

/-! ## Rotation along the relation -/

section
variable {s : Stack} (htop : s.top ≤ s.slots.size) {i : ℤ} {p : ℕ} (hi : s.position? i = some p)
include htop hi

/-- **A rotation moves around** the values from its index to the top. -/
theorem rotate_cycled (n : ℤ) : ∃ t, (rotate i n).perform s = (.ok (), t) ∧ Cycled p n s t ∧
    (t.values.drop p).Perm (s.values.drop p) := by
  have hp := position?_lt hi
  have hpos : (0 : ℤ) < (s.top - p : ℕ) := by omega
  have hnonneg := Int.emod_nonneg n hpos.ne'
  have hlt := Int.emod_lt_of_pos n hpos
  obtain ⟨x, u, v, z, rfl, rfl, hv⟩ := exists_ofParts (k := (n % ((s.top - p : ℕ) : ℤ)).toNat) htop
    (Nat.le_of_lt hp) (by omega)
  have hrotated := BoundedList.rotateRange_append x u v z
  rw [List.length_append] at hrotated
  refine ⟨ofParts x v u z, ?_, ?_, ?_⟩
  · rw [perform_rotate, hi]
    simp only [← hv]
    simp only [ofParts, hrotated, Nat.add_comm]
  · have hcongr : n ≡ v.length [ZMOD ((ofParts x u v z).top - x.length : ℕ)] := by
      rw [hv, Int.toNat_of_nonneg hnonneg]
      exact (Int.mod_modEq ..).symm
    exact (cycled_ofParts x z (by simp [ofParts] at hp; omega)).congr hcongr
  · rw [drop_values_ofParts, drop_values_ofParts]
    exact List.perm_append_comm

/-- **Rotations add up** modulo the number of values they move. -/
theorem rotate_rotate {n k m : ℤ} (h : m ≡ n + k [ZMOD (s.top - p : ℕ)]) :
    (do rotate i n; rotate i k).perform s = (rotate i m).perform s := by
  obtain ⟨t, ht, hcycled, -⟩ := rotate_cycled htop hi n
  have hposition : t.position? i = some p := by
    rw [← hi, position?, position?, isValid, isValid, absIndex, absIndex, hcycled.top]
  have htop' : t.top ≤ t.slots.size := by
    have hcapacity : t.slots.size = s.slots.size := hcycled.capacity
    rw [hcycled.top, hcapacity]
    exact htop
  obtain ⟨u, hu, hcycled', -⟩ := rotate_cycled htop' hposition k
  obtain ⟨r, hr, hcycled'', -⟩ := rotate_cycled htop hi m
  have hresult : u = r := ((hcycled.trans hcycled').congr h).unique hcycled''
  rw [StackM.perform_bind, ht, hr]
  simp only [hu, hresult]

/-- A rotation by a multiple of the number of values it moves changes nothing. -/
theorem rotate_of_dvd {n : ℤ} (h : ((s.top - p : ℕ) : ℤ) ∣ n) : (rotate i n).perform s = (.ok (), s) := by
  obtain ⟨t, ht, hcycled, -⟩ := rotate_cycled htop hi n
  have hzero : n ≡ 0 [ZMOD (s.top - p : ℕ)] := Int.modEq_zero_iff_dvd.2 h
  rw [ht, hcycled.unique ((Cycled.refl p s).congr hzero)]

end

/-- **Rotation is a cyclic action** on the values from a valid index to the top: amounts add up modulo their
number. In 64 bits and in place, no number on the way leaves its width and no other slot is touched. -/
theorem rotate_cyclic_action {s : Stack} (htop : s.top ≤ s.slots.size) {i : ℤ} (hi : s.isValid i) :
    let p := (s.absIndex i - 1).toNat
    let length : ℤ := (s.top - p : ℕ)
    (∀ n, ∃ t, (rotate i n).perform s = (.ok (), t) ∧ Cycled p n s t ∧
      (t.values.drop p).Perm (s.values.drop p)) ∧
    (∀ n k m, m ≡ n + k [ZMOD length] →
      (do rotate i n; rotate i k).perform s = (rotate i m).perform s) ∧
    (∀ n, length ∣ n → (rotate i n).perform s = (.ok (), s)) ∧
    (∀ n, (do rotate i n; rotate i (-n)).perform s = (.ok (), s)) ∧
    (s.slots.size < 2 ^ 63 → ∀ i' n : Int64, i'.toInt = i →
      InPlace.rotate i' n s = .ok ((rotate i n.toInt).perform s)) := by
  intro p length
  have hposition : s.position? i = some p := by
    rw [position?, if_pos hi, Option.some_inj]
    omega
  refine ⟨rotate_cycled htop hposition, fun n k m => rotate_rotate htop hposition,
    fun n => rotate_of_dvd htop hposition, fun n => ?_, ?_⟩
  · have hundone := rotate_rotate htop hposition (n := n) (k := -n) (m := 0) (by rw [add_neg_cancel])
    rw [hundone, rotate_of_dvd htop hposition (dvd_zero _)]
  · rintro hsize i' n rfl
    exact InPlace.rotate_eq htop hsize i' n

/-- The least amount there is moves three values by one place, since `-(2 ^ 63)` is one modulo three. The
slot above the top keeps what it holds. -/
theorem rotate_cyclic_action_least :
    let s : Stack := { slots := #[.integer 1, .integer 2, .integer 3, .integer 4, .boolean true], top := 4 }
    let t : Stack := { slots := #[.integer 1, .integer 4, .integer 2, .integer 3, .boolean true], top := 4 }
    s.top ≤ s.slots.size ∧ s.isValid (-3) ∧ InPlace.rotate (-3) Int64.minValue s = .ok (.ok (), t) ∧
      (do rotate (-3) Int64.minValue.toInt; rotate (-3) (-1)).perform s = (.ok (), s) := by
  intro s t
  have htop : s.top ≤ s.slots.size := by decide
  have hvalid : s.isValid (-3) := by decide
  obtain ⟨-, hadd, hmultiple, -, hplace⟩ := rotate_cyclic_action htop hvalid
  have hrotated : (rotate (-3) Int64.minValue.toInt).perform s = (.ok (), t) := by decide +kernel
  refine ⟨htop, hvalid, ?_, ?_⟩
  · rw [hplace (by decide) (-3) Int64.minValue (by decide), hrotated]
  · rw [hadd _ _ 0 (by decide), hmultiple 0 (dvd_zero _)]

end LuaKernel.Stack
