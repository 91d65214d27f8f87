import LuaKernel.Machine
import LuaKernel.Proofs.Numeral.Texts

/-!
# Strings in place

Reading a value as a string writes a number's text into its slot. The effect on a stack is
`Stack.stringify`: the value at one index, if it is a number, becomes its text.

* `perform_stringAt?`: the reading answers with the value's string and leaves the stringified stack.
* `SameBut i s t`: the stacks differ at the index `i` at most; `sameBut_stringify`.
* `stringify_stringify`: what has become a string stays one.
* `stringAt?_in_place`: what a host can tell of all this, and that an integer still reads as the integer.
-/

namespace LuaKernel

/-! ## Values -/

namespace Value

/-- The text of a number, for the number. -/
def stringified : Value → Value
  | .integer n => .string (Integer.text n)
  | .float x => .string x.text
  | v => v

theorem stringified_stringified (v : Value) : v.stringified.stringified = v.stringified := by
  cases v <;> rfl

theorem toString?_stringified (v : Value) : v.stringified.toString? = v.toString? := by
  cases v <;> rfl

theorem stringified_of_not_isNumber {v : Value} (h : ¬v.isNumber) : v.stringified = v := by
  cases v with
  | integer n => exact absurd rfl h
  | float x => exact absurd rfl h
  | nil | boolean | string => rfl

theorem isSome_toString? (v : Value) : v.toString?.isSome ↔ v.kind = .string ∨ v.kind = .number := by
  cases v <;> simp [toString?, kind]

theorem toInteger?_stringified_integer (n : Int64) : (stringified (.integer n)).toInteger? = some n := by
  have hblank : Numeral.Blank [] := List.nil_subset _
  have hread := Integer.integer?_text n hblank hblank
  rw [List.nil_append, List.append_nil] at hread
  simp only [stringified, toInteger?, hread, Option.some_or]

end Value

/-! ## One slot -/

namespace Stack

/-- The stack `t` is `s` but for the value at the index `i`. -/
structure SameBut (i : Int) (s t : Stack) : Prop where
  top : t.top = s.top
  capacity : t.capacity = s.capacity
  elsewhere : ∀ p, s.position? i ≠ some p → t.slots[p]? = s.slots[p]?

/-- The stack with the text of the number at an index for the number. -/
def stringify (i : Int) (s : Stack) : Stack :=
  match s.position? i with
  | none => s
  | some p => { s with slots := s.slots.modify p Value.stringified }

variable {i : Int} {s : Stack}

theorem stringify_of_none (h : s.position? i = none) : s.stringify i = s := by
  rw [stringify, h]

theorem stringify_of_some {p : Nat} (h : s.position? i = some p) :
    s.stringify i = { s with slots := s.slots.modify p Value.stringified } := by
  rw [stringify, h]

theorem slot?_of_some {p : Nat} (h : s.position? i = some p) : s.slot? i = s.slots[p]? := by
  rw [slot?, h, Option.bind_some]

theorem sameBut_stringify (i : Int) (s : Stack) : s.SameBut i (s.stringify i) := by
  cases h : s.position? i with
  | none =>
    rw [stringify_of_none h]
    exact ⟨rfl, rfl, fun _ _ => rfl⟩
  | some p =>
    rw [stringify_of_some h]
    refine ⟨rfl, Array.size_modify, fun q hq => ?_⟩
    rw [Array.getElem?_modify, if_neg (by rintro rfl; exact hq h)]

/-- The height is the same, so the index addresses the same slot. -/
theorem position?_stringify (i : Int) (s : Stack) : (s.stringify i).position? i = s.position? i := by
  rw [position?, position?, isValid, isValid, absIndex, absIndex, (sameBut_stringify i s).top]

theorem slot?_stringify (i : Int) (s : Stack) :
    (s.stringify i).slot? i = (s.slot? i).map Value.stringified := by
  cases h : s.position? i with
  | none => simp [stringify_of_none h, slot?, h]
  | some p =>
    rw [slot?_of_some ((position?_stringify i s).trans h), slot?_of_some h, stringify_of_some h,
      Array.getElem?_modify, if_pos rfl]

theorem stringify_eq_self (h : ∀ v, s.slot? i = some v → v.stringified = v) : s.stringify i = s := by
  cases hp : s.position? i with
  | none => exact stringify_of_none hp
  | some p =>
    rw [slot?_of_some hp] at h
    have hslots : s.slots.modify p Value.stringified = s.slots := by
      apply Array.ext_getElem?
      intro q
      rw [Array.getElem?_modify]
      split
      · subst q
        cases hv : s.slots[p]? with
        | none => rfl
        | some v => rw [Option.map_some, h v hv]
      · rfl
    rw [stringify_of_some hp, hslots]

theorem stringify_stringify (i : Int) (s : Stack) : (s.stringify i).stringify i = s.stringify i := by
  apply stringify_eq_self
  intro w hw
  rw [slot?_stringify] at hw
  obtain ⟨v, -, rfl⟩ := Option.map_eq_some_iff.1 hw
  exact v.stringified_stringified

/-- The text is written over the number. -/
theorem perform_overwrite_stringified {v : Value} (h : s.slot? i = some v) :
    (overwrite i v.stringified).perform s = (.ok true, s.stringify i) := by
  rw [perform_overwrite]
  cases hp : s.position? i with
  | none => simp [slot?, hp] at h
  | some p =>
    rw [slot?_of_some hp] at h
    obtain ⟨hlt, -⟩ := Array.getElem?_eq_some_iff.1 h
    have hslots : s.slots.setIfInBounds p v.stringified = s.slots.modify p Value.stringified := by
      apply Array.ext_getElem?
      intro q
      rw [Array.getElem?_setIfInBounds, Array.getElem?_modify]
      by_cases hq : p = q
      · subst q
        rw [if_pos rfl, if_pos hlt, if_pos rfl, h, Option.map_some]
      · rw [if_neg hq, if_neg hq]
    rw [stringify_of_some hp]
    simp only [hslots]

end Stack

/-! ## The reading -/

open Stack

theorem perform_stringAt? (i : Int) (s : Stack) : (Machine.stringAt? i).perform s =
    (.ok ((s.slot? i).bind Value.toString?), s.stringify i) := by
  simp only [Machine.stringAt?, StackM.perform_bind, StackM.perform_get]
  cases hv : s.slot? i with
  | none => rw [stringify_eq_self (by simp [hv])]; rfl
  | some v =>
    have hwrite := perform_overwrite_stringified hv
    have hself (h : v.stringified = v) : s.stringify i = s := stringify_eq_self (by simp [hv, h])
    cases v with
    | nil | boolean c | string t => rw [hself rfl]; rfl
    | integer n | float x =>
      simp only [Value.toString?, StackM.perform_bind]
      rw [Value.stringified] at hwrite
      rw [hwrite]
      rfl

theorem isSome_string_iff (i : Int) (s : Stack) :
    ((s.slot? i).bind Value.toString?).isSome ↔ s.isStringAt i := by
  unfold isStringAt kindAt
  cases s.slot? i with
  | none => simp
  | some v => simpa using v.isSome_toString?

open Numeral in
/-- **Reading an integer as a string loses nothing**: its text reads as the integer again. A reading in place
changes the slot at the index only, and only a number there, so a second reading finds what the first left. -/
theorem stringAt?_in_place (s : Stack) (i : Int) :
    (∀ (n : Int64) (l r : Bytes), Blank l → Blank r → integer? (l ++ Integer.text n ++ r) = some n) ∧
    ∃ answer t, (Machine.stringAt? i).perform s = (.ok answer, t) ∧ s.SameBut i t ∧
      (t ≠ s → ∃ v, s.slot? i = some v ∧ v.isNumber) ∧
      (∀ n, s.slot? i = some (.integer n) →
        answer = some (Integer.text n) ∧ t.slot? i = some (.string (Integer.text n))) ∧
      (∀ x, s.slot? i = some (.float x) → answer = some x.text ∧ t.slot? i = some (.string x.text)) ∧
      (∀ u, s.slot? i = some (.string u) → answer = some u) ∧
      (answer.isSome ↔ s.isStringAt i) ∧
      (Machine.stringAt? i).perform t = (.ok answer, t) ∧
      ∀ n, s.slot? i = some (.integer n) → s.integerAt? i = some n ∧ t.integerAt? i = some n := by
  refine ⟨fun n l r => Integer.integer?_text n, _, _, perform_stringAt? i s, sameBut_stringify i s, ?_, ?_,
    ?_, ?_, isSome_string_iff i s, ?_, ?_⟩
  · intro hne
    by_contra hnumber
    refine hne (stringify_eq_self fun v hv => Value.stringified_of_not_isNumber fun hn => ?_)
    exact hnumber ⟨v, hv, hn⟩
  · intro n hn
    rw [slot?_stringify, hn]
    exact ⟨rfl, rfl⟩
  · intro x hx
    rw [slot?_stringify, hx]
    exact ⟨rfl, rfl⟩
  · intro u hu
    rw [hu]
    rfl
  · rw [perform_stringAt?, stringify_stringify, slot?_stringify]
    cases s.slot? i with
    | none => rfl
    | some v => exact congrArg (fun answer => (Except.ok answer, _)) v.toString?_stringified
  · intro n hn
    unfold integerAt?
    rw [slot?_stringify, hn]
    exact ⟨rfl, Value.toInteger?_stringified_integer n⟩

/-- The least integer, under the top of a stack with room left. -/
theorem stringAt?_in_place_least :
    let s : Stack := { slots := #[.boolean true, .integer Int64.minValue, .float (.zero true), .nil], top := 3 }
    let text := Bytes.ascii "-9223372036854775808"
    let t : Stack := { slots := #[.boolean true, .string text, .float (.zero true), .nil], top := 3 }
    Numeral.integer? (Bytes.ascii " \t-9223372036854775808\n") = some Int64.minValue ∧
      (Machine.stringAt? (-2)).perform s = (.ok (some text), t) ∧
      (Machine.stringAt? (-2)).perform t = (.ok (some text), t) ∧ s.isStringAt (-2) ∧
      s.integerAt? (-2) = some Int64.minValue ∧ t.integerAt? (-2) = some Int64.minValue := by
  intro s text t
  have hslot : s.slot? (-2) = some (.integer Int64.minValue) := rfl
  have hperform : (Machine.stringAt? (-2)).perform s = (.ok (some text), t) := rfl
  obtain ⟨hread, answer, t', ht', -, -, -, -, -, hstring, hagain, hsame⟩ := stringAt?_in_place s (-2)
  obtain ⟨hanswer, rfl⟩ := Prod.mk.inj (hperform.symm.trans ht')
  obtain rfl := Except.ok.inj hanswer
  have hblank := hread Int64.minValue (Bytes.ascii " \t") (Bytes.ascii "\n")
    (Numeral.subset_of_all (List.Subset.refl _) rfl) (Numeral.subset_of_all (List.Subset.refl _) rfl)
  exact ⟨hblank, hperform, hagain, hstring.1 rfl, hsame _ hslot⟩

end LuaKernel
