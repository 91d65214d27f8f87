import Mathlib
import LuaKernel.Proofs.Machine.ListEdits

/-!
# Concatenation in any grouping

Values are concatenated all at once or a few at a time, with the same result. A value's text is itself
when it is a string, so what a first concatenation has pushed enters a second one as it is.

* `join_append`: the join of two lists is the joins of both, one after the other; a fault of the first
  list wins.
* `concat_of_join`: one concatenation puts the join of the values it takes in their place, so that what
  is left has the join that there was.
* `runAll_concat`, `concat_groups`: so a run of concatenations that leaves one value leaves the join of
  all, by induction on the run, as one concatenation does.
* `run_concat`: the same on every stack that a host can reach.
-/

namespace LuaKernel

/-! ## Joins -/

namespace Machine

variable {v : Value} {vs ws : List Value} {t : Bytes}

theorem join_nil : join [] = .ok [] := rfl

theorem join_cons (v : Value) (vs : List Value) :
    join (v :: vs) = do
      let t ← concatOperand v
      let u ← join vs
      return t ++ u := by
  unfold join
  rw [List.mapM_cons]
  cases concatOperand v with
  | error e => rfl
  | ok t => cases vs.mapM concatOperand <;> rfl

/-- **The join of two lists.** -/
theorem join_append (vs ws : List Value) :
    join (vs ++ ws) = do
      let t ← join vs
      let u ← join ws
      return t ++ u := by
  induction vs with
  | nil =>
    rw [List.nil_append, join_nil]
    cases join ws <;> rfl
  | cons v vs ih =>
    rw [List.cons_append, join_cons, join_cons, ih]
    cases concatOperand v with
    | error e => rfl
    | ok t =>
      cases join vs with
      | error e => rfl
      | ok u =>
        cases join ws with
        | error e => rfl
        | ok w => exact congrArg Except.ok (List.append_assoc t u w).symm

theorem join_append_eq_ok :
    join (vs ++ ws) = .ok t ↔ ∃ u w, join vs = .ok u ∧ join ws = .ok w ∧ t = u ++ w := by
  rw [join_append]
  constructor
  · intro h
    cases hvs : join vs with
    | error e => rw [hvs] at h; cases h
    | ok u =>
      cases hws : join ws with
      | error e => rw [hvs, hws] at h; cases h
      | ok w =>
        rw [hvs, hws] at h
        cases h
        exact ⟨u, w, rfl, rfl, rfl⟩
  · intro h
    obtain ⟨u, w, hvs, hws, rfl⟩ := h
    rw [hvs, hws]
    rfl

/-- A string is its own text. -/
theorem join_string (t : Bytes) : join [.string t] = .ok t := by
  rw [join_cons, join_nil]
  exact congrArg Except.ok (List.append_nil t)

theorem join_of_texts {texts : List Bytes} (h : vs.map Value.toString? = texts.map some) :
    join vs = .ok texts.flatten := by
  induction vs generalizing texts with
  | nil =>
    obtain rfl : texts = [] := by simpa using h.symm
    rfl
  | cons v vs ih =>
    cases texts with
    | nil => cases h
    | cons t texts =>
      rw [List.map_cons, List.map_cons, List.cons.injEq] at h
      rw [join_cons, concatOperand, h.1, ih h.2]
      rfl

end Machine

namespace Value

theorem exists_toString? {v : Value} (h : v.isString ∨ v.isNumber) : ∃ t, v.toString? = some t := by
  cases v with
  | string t => exact ⟨t, rfl⟩
  | integer n => exact ⟨_, rfl⟩
  | float x => exact ⟨_, rfl⟩
  | nil => rcases h with h | h <;> cases h
  | boolean b => rcases h with h | h <;> cases h

theorem toString?_eq_none {v : Value} (h : ¬(v.isString ∨ v.isNumber)) : v.toString? = none := by
  cases v with
  | string t => exact absurd (.inl rfl) h
  | integer n => exact absurd (.inr rfl) h
  | float x => exact absurd (.inr rfl) h
  | nil => rfl
  | boolean b => rfl

theorem exists_texts {vs : List Value} (h : ∀ v ∈ vs, v.isString ∨ v.isNumber) :
    ∃ texts : List Bytes, vs.map toString? = texts.map some := by
  induction vs with
  | nil => exact ⟨[], rfl⟩
  | cons v vs ih =>
    obtain ⟨t, ht⟩ := exists_toString? (h v (.head _))
    obtain ⟨texts, htexts⟩ := ih fun w hw => h w (.tail _ hw)
    exact ⟨t :: texts, by rw [List.map_cons, List.map_cons, ht, htexts]⟩

theorem exists_lowest {vs : List Value} (h : ∃ v ∈ vs, ¬(v.isString ∨ v.isNumber)) :
    ∃ front v back, vs = front ++ v :: back ∧ (∀ w ∈ front, w.isString ∨ w.isNumber) ∧
      ¬(v.isString ∨ v.isNumber) := by
  obtain ⟨v, hfind⟩ : ∃ v, vs.find? (fun v => !(v.isString || v.isNumber)) = some v := by
    rw [← Option.isSome_iff_exists, List.find?_isSome]
    simpa using h
  obtain ⟨hv, front, back, hsplit, hfront⟩ := List.find?_eq_some_iff_append.1 hfind
  exact ⟨front, v, back, hsplit, by simpa using hfront, by simpa using hv⟩

end Value

/-- The lowest value without a text is at fault. -/
theorem Machine.join_of_lowest {front : List Value} {v : Value}
    (hfront : ∀ w ∈ front, w.isString ∨ w.isNumber) (hv : ¬(v.isString ∨ v.isNumber)) (back : List Value) :
    join (front ++ v :: back) = .error (.concatenation v.kind) := by
  obtain ⟨texts, htexts⟩ := Value.exists_texts hfront
  rw [join_append, join_of_texts htexts, join_cons, concatOperand, Value.toString?_eq_none hv]
  rfl

/-! ## Concatenation on lists -/

namespace BoundedList

open Machine

variable {b b' : BoundedList} {below operands : List Value} {t : Bytes}

theorem eq_of_values (hvalues : b.values = b'.values) (hcapacity : b.capacity = b'.capacity) : b = b' := by
  cases b
  cases b'
  simp only [mk.injEq]
  exact ⟨hvalues, hcapacity⟩

theorem operands_le {n : Nat} (hb : b.values = below ++ operands) (hlength : operands.length = n) :
    n ≤ b.values.length := by
  rw [hb, List.length_append]
  omega

theorem concat_eq {n : Nat} (hn : 2 ≤ n) (hb : b.values = below ++ operands) (hlength : operands.length = n) :
    b.concat n = match join operands with
      | .ok t => (.ok (), b.cutPush n (.string t) (Nat.zero_lt_of_lt hn) (operands_le hb hlength))
      | .error e => (.error e, b) := by
  have hle := operands_le hb hlength
  have hbelow : b.values.length - n = below.length := by rw [hb, List.length_append]; omega
  have hdrop : b.values.drop (b.values.length - n) = operands := by rw [hbelow, hb, List.drop_left]
  cases hjoin : join operands with
  | ok t => rw [concat, dif_neg (by omega), dif_neg (by omega), if_neg (by omega), hdrop, hjoin]
  | error e => rw [concat, dif_neg (by omega), dif_neg (by omega), if_neg (by omega), hdrop, hjoin]

/-- **One concatenation** puts the join of its operands in their place. -/
theorem concat_of_join {n : Nat} (hn : 2 ≤ n) (hb : b.values = below ++ operands)
    (hlength : operands.length = n) (ht : join operands = .ok t) :
    ∃ b', b.concat n = (.ok (), b') ∧ b'.values = below ++ [.string t] ∧ b'.capacity = b.capacity := by
  have hbelow : b.values.length - n = below.length := by rw [hb, List.length_append]; omega
  have hconcat := concat_eq hn hb hlength
  rw [ht] at hconcat
  refine ⟨_, hconcat, ?_, rfl⟩
  show b.values.take (b.values.length - n) ++ [.string t] = _
  rw [hbelow, hb, List.take_left]

/-- **A run of concatenations** that takes all of some values and leaves one leaves their join. Each step
puts a string for some of the last values, and the join of what there is stays. -/
theorem runAll_concat {ks : List Nat} (hks : ks ≠ []) (htwo : ∀ k ∈ ks, 2 ≤ k)
    (hsum : (ks.map (· - 1)).sum + 1 = operands.length) (hb : b.values = below ++ operands)
    (ht : join operands = .ok t) :
    ∃ b', runAll host (ks.map .concat) b = (List.replicate ks.length (.ok ()), b') ∧
      b'.values = below ++ [.string t] ∧ b'.capacity = b.capacity := by
  induction ks generalizing b operands with
  | nil => exact absurd rfl hks
  | cons k ks ih =>
    have hk := htwo k (.head _)
    rw [List.map_cons, List.sum_cons] at hsum
    obtain ⟨front, last, rfl, hlast⟩ : ∃ front last, operands = front ++ last ∧ last.length = k :=
      ⟨operands.take (operands.length - k), operands.drop (operands.length - k),
        (List.take_append_drop ..).symm, by rw [List.length_drop]; omega⟩
    obtain ⟨u, w, hfront, hw, rfl⟩ := join_append_eq_ok.1 ht
    rw [← List.append_assoc] at hb
    obtain ⟨c, hstep, hc, hcapacity⟩ := concat_of_join hk hb hlast hw
    rw [List.length_append] at hsum
    by_cases hnil : ks = []
    · -- The last step took all there was.
      subst hnil
      rw [List.map_nil, List.sum_nil] at hsum
      obtain rfl : front = [] := List.length_eq_zero_iff.1 (by omega)
      obtain rfl : [] = u := Except.ok.inj (join_nil.symm.trans hfront)
      refine ⟨c, ?_, by rw [hc, List.append_nil, List.nil_append], hcapacity⟩
      show ([(b.concat k).1], (b.concat k).2) = _
      rw [hstep]
      rfl
    · have hsum' : (ks.map (· - 1)).sum + 1 = (front ++ [Value.string w]).length := by
        rw [List.length_append, List.length_singleton]
        omega
      have hjoin : join (front ++ [.string w]) = .ok (u ++ w) :=
        join_append_eq_ok.2 ⟨u, w, hfront, join_string w, rfl⟩
      obtain ⟨b', hrun, hvalues, hcapacity'⟩ := ih hnil (fun k hk => htwo k (.tail _ hk)) hsum'
        (by rw [hc, List.append_assoc]) hjoin
      refine ⟨b', ?_, hvalues, hcapacity'.trans hcapacity⟩
      show ((b.concat k).1 :: (runAll host (ks.map .concat) (b.concat k).2).1,
        (runAll host (ks.map .concat) (b.concat k).2).2) = _
      rw [hstep, hrun]
      rfl

/-- What one concatenation leaves, every run of concatenations of the same values leaves. -/
theorem concat_groups {n : Nat} (hn : 2 ≤ n) (hb : b.values = below ++ operands)
    (hlength : operands.length = n) (ht : join operands = .ok t) :
    ∃ b', b.concat n = (.ok (), b') ∧ b'.values = below ++ [.string t] ∧ b'.capacity = b.capacity ∧
      ∀ ks : List Nat, (∀ k ∈ ks, 2 ≤ k) → (ks.map (· - 1)).sum = n - 1 →
        runAll host (ks.map .concat) b = (List.replicate ks.length (.ok ()), b') := by
  obtain ⟨b', hconcat, hvalues, hcapacity⟩ := concat_of_join hn hb hlength ht
  refine ⟨b', hconcat, hvalues, hcapacity, fun ks htwo hsum => ?_⟩
  have hks : ks ≠ [] := by
    intro hnil
    rw [hnil, List.map_nil, List.sum_nil] at hsum
    omega
  obtain ⟨c, hrun, hvalues', hcapacity'⟩ := runAll_concat hks htwo (by omega) hb ht
  obtain rfl := eq_of_values (hvalues'.trans hvalues.symm) (hcapacity'.trans hcapacity.symm)
  exact hrun

end BoundedList

open BoundedList

/-- **Concatenation does not depend on the grouping**: any run of concatenations that ends with one value of the
operands succeeds at each step and leaves the texts of all, from the bottom up. If some operand has no text,
the lowest such one is at fault. -/
theorem run_concat (capacity : Nat) (ops : List HostOp) :
    let s := (runAll HostOp.perform ops (.ofCapacity capacity)).2
    ∀ n, 2 ≤ n → n ≤ s.top →
      let below := s.values.take (s.top - n)
      let operands := s.values.drop (s.top - n)
      ((∀ v ∈ operands, v.isString ∨ v.isNumber) → ∃ (texts : List Bytes) (t : Stack),
        operands.map Value.toString? = texts.map some ∧
        (Machine.concat n).perform s = (.ok (), t) ∧ t.values = below ++ [.string texts.flatten] ∧
        t.top = s.top - n + 1 ∧ t.capacity = s.capacity ∧
        (∀ ks : List Nat, (∀ k ∈ ks, 2 ≤ k) → (ks.map (· - 1)).sum = n - 1 →
          runAll HostOp.perform (ks.map .concat) s = (List.replicate ks.length (.ok ()), t)) ∧
        (∀ k, 2 ≤ k → k < n →
          runAll HostOp.perform [.concat k, .concat (n - k + 1)] s = ([.ok (), .ok ()], t)) ∧
        runAll HostOp.perform (List.replicate (n - 1) (.concat 2)) s =
          (List.replicate (n - 1) (.ok ()), t)) ∧
      ((∃ v ∈ operands, ¬(v.isString ∨ v.isNumber)) → ∃ front v back,
        operands = front ++ v :: back ∧ (∀ w ∈ front, w.isString ∨ w.isNumber) ∧
        ¬(v.isString ∨ v.isNumber) ∧
        (Machine.concat n).perform s = (.error (.concatenation v.kind), s)) := by
  rw [runAll_host]
  generalize (runAll host ops (empty capacity)).2 = b
  intro s n hn htop below operands
  have hvs : s.values = b.values := values_toStack b
  have htop' : s.top = b.values.length := top_toStack b
  have hb : b.values = below ++ operands := by rw [← hvs, List.take_append_drop]
  have hbelow : below.length = s.top - n := by
    rw [List.length_take, hvs]
    omega
  have hlength : operands.length = n := by
    rw [List.length_drop, hvs]
    omega
  constructor
  · intro hall
    obtain ⟨texts, htexts⟩ := Value.exists_texts hall
    obtain ⟨b', hconcat, hvalues, hcapacity, hrun⟩ :=
      concat_groups hn hb hlength (Machine.join_of_texts htexts)
    have hgroups (ks : List Nat) (htwo : ∀ k ∈ ks, 2 ≤ k) (hsum : (ks.map (· - 1)).sum = n - 1) :
        runAll HostOp.perform (ks.map .concat) s = (List.replicate ks.length (.ok ()), b'.toStack) := by
      rw [runAll_host_toStack, hrun ks htwo hsum]
    refine ⟨texts, b'.toStack, htexts, ?_, ?_, ?_, ?_, hgroups, fun k hk hkn => ?_, ?_⟩
    · rw [refines_concat n b, hconcat]
    · rw [values_toStack, hvalues]
    · rw [top_toStack, hvalues, List.length_append, hbelow]
      rfl
    · rw [capacity_toStack, capacity_toStack, hcapacity]
    · refine hgroups [k, n - k + 1] (fun m hm => ?_) ?_
      · simp only [List.mem_cons, List.not_mem_nil, or_false] at hm
        rcases hm with rfl | rfl <;> omega
      · show (k - 1) + ((n - k + 1 - 1) + 0) = n - 1
        omega
    · have hpairs := hgroups (List.replicate (n - 1) 2) (fun m hm => ?_) ?_
      · rwa [List.map_replicate, List.length_replicate] at hpairs
      · exact Nat.le_of_eq (List.eq_of_mem_replicate hm).symm
      · rw [List.map_replicate, List.sum_replicate_nat, Nat.mul_one]
  · intro hsome
    obtain ⟨front, v, back, hsplit, hfront, hv⟩ := Value.exists_lowest hsome
    refine ⟨front, v, back, hsplit, hfront, hv, ?_⟩
    have hjoin := Machine.join_of_lowest hfront hv back
    rw [← hsplit] at hjoin
    rw [refines_concat n b, concat_eq hn hb hlength, hjoin]

/-- A string, an integer and a float on a boolean: the three go together at once, or the upper two first.
With the boolean among them nothing goes. -/
theorem run_concat_three :
    let ops : List HostOp :=
      [.push (.boolean true), .push (.string [0x61]), .push (.integer (-7)), .push (.float (.zero false))]
    let s := (runAll HostOp.perform ops (.ofCapacity 4)).2
    (∃ t, (Machine.concat 3).perform s = (.ok (), t) ∧
      t.values = [.boolean true, .string (Bytes.ascii "a-70.0")] ∧ t.capacity = 4 ∧
      runAll HostOp.perform [.concat 2, .concat 2] s = ([.ok (), .ok ()], t)) ∧
    (Machine.concat 4).perform s = (.error (.concatenation .boolean), s) := by
  intro ops s
  obtain ⟨hjoined, -⟩ := run_concat 4 ops 3 (by decide) (by decide)
  obtain ⟨-, hfault⟩ := run_concat 4 ops 4 (by decide) (by decide)
  constructor
  · obtain ⟨texts, t, htexts, hconcat, hvalues, -, hcapacity, -, htwo, -⟩ := hjoined (by decide)
    have htexts' : [[0x61], Bytes.ascii "-7", Bytes.ascii "0.0"].map some = texts.map some := htexts
    obtain rfl := (List.map_inj_right fun _ _ => Option.some.inj).1 htexts'
    exact ⟨t, hconcat, hvalues, hcapacity, htwo 2 (by decide) (by decide)⟩
  · obtain ⟨front, v, back, hsplit, hfront, -, hconcat⟩ := hfault (by decide)
    have hsplit' : .boolean true :: s.values.drop 1 = front ++ v :: back := hsplit
    -- No value below the boolean is in front of it.
    cases front with
    | nil =>
      obtain ⟨rfl, -⟩ := List.cons.inj hsplit'
      exact hconcat
    | cons w front =>
      obtain ⟨rfl, -⟩ := List.cons.inj hsplit'
      exact absurd (hfront _ (.head _)) (by decide)

end LuaKernel
