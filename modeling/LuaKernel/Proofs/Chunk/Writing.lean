import LuaKernel.Chunk.Encode
import LuaKernel.Proofs.Chunk.Grammar

/-!
# What writing writes

When the writers succeed and with which bytes. A written table is a table of the grammar whose entries
are what the writer of entries wrote (`encodeTable_eq_ok`), and the functions inside a function are such a
table (`encodeFunction_eq_ok`), so facts about a written chunk follow from facts about its entries.

* `…_eq_ok`: the writer succeeds with the bytes `u` iff a stated condition holds.
* `…_form`: what a writer wrote is a form of what it was given.
-/

namespace LuaKernel.Chunk

theorem bind_eq_ok {α β : Type} {x : Except EncodeError α} {f : α → Except EncodeError β} {b : β} :
    (x >>= f) = .ok b ↔ ∃ a, x = .ok a ∧ f a = .ok b := by
  cases x with
  | error e => exact ⟨nofun, nofun⟩
  | ok a => exact ⟨fun h => ⟨a, rfl, h⟩, fun ⟨_, h, h'⟩ => by cases h; exact h'⟩

theorem pure_eq_ok {α : Type} {a b : α} : (pure a : Except EncodeError α) = .ok b ↔ a = b :=
  ⟨Except.ok.inj, congrArg Except.ok⟩

theorem ite_eq_ok {α : Type} {c : Prop} [Decidable c] {a b : α} {e : EncodeError} :
    (if c then .ok a else .error e : Except EncodeError α) = .ok b ↔ c ∧ b = a := by
  by_cases hc : c
  · rw [if_pos hc, Except.ok.injEq, eq_comm]
    exact ⟨fun h => ⟨hc, h⟩, And.right⟩
  · rw [if_neg hc]
    exact ⟨nofun, fun h => absurd h.1 hc⟩

/-! ## Entries -/

theorem encodeCount_eq_ok {part : Part} {n : Nat} {u : Bytes} :
    encodeCount part n = .ok u ↔ n < UInt32.size ∧ u = Bytes.leBytes 4 n :=
  ite_eq_ok

theorem boolForm_encodeBool (b : Bool) : BoolForm b [encodeBool b] := by
  cases b
  · exact ⟨0, rfl, rfl⟩
  · exact ⟨1, rfl, rfl⟩

/-- A string is written in the short form if it has one. -/
theorem encodeString_eq_ok {s u : Bytes} :
    encodeString s = .ok u ↔ s.length + 1 < UInt64.size ∧
      u = if s.length < 254 then UInt8.ofNat (s.length + 1) :: s
        else longSizeMark :: (Bytes.leBytes 8 (s.length + 1) ++ s) := by
  have hmark : longSizeMark.toNat = 255 := rfl
  have hsize : UInt64.size = 18446744073709551616 := rfl
  unfold encodeString
  simp only [hmark]
  by_cases h : s.length < 254
  · rw [if_pos (by omega), if_pos h, Except.ok.injEq, eq_comm]
    exact ⟨fun hu => ⟨by omega, hu⟩, And.right⟩
  · rw [if_neg (by omega), if_neg h]
    exact ite_eq_ok

theorem encodeString_form {s u : Bytes} (h : encodeString s = .ok u) : StringForm (some s) u := by
  obtain ⟨hlt, rfl⟩ := encodeString_eq_ok.1 h
  split
  · rename_i hs
    have hn : (UInt8.ofNat (s.length + 1)).toNat = s.length + 1 :=
      UInt8.toNat_ofNat_of_lt' (show _ < 256 by omega)
    exact .short (by omega) (by omega) (by omega)
  · have hn : (UInt64.ofNat (s.length + 1)).toNat = s.length + 1 := UInt64.toNat_ofNat_of_lt' hlt
    have hlong : StringForm (some s) (longSizeMark :: (word64Bytes (UInt64.ofNat (s.length + 1)) ++ s)) :=
      .long (by omega) (by omega)
    rwa [word64Bytes, hn] at hlong

theorem encodeString?_form {written : Option Bytes} {u : Bytes} (h : encodeString? written = .ok u) :
    StringForm written u := by
  cases written with
  | none => cases h; exact .absent
  | some s => exact encodeString_form h

theorem encodeString_textForm {s u : Bytes} (h : encodeString s = .ok u) : TextForm s u :=
  ⟨some s, encodeString_form h, rfl⟩

theorem encodeConstant_form {k : Value} {u : Bytes} (h : encodeConstant k = .ok u) :
    ConstantForm k u := by
  cases k with
  | nil => cases h; exact .nil
  | boolean b => cases h; exact .boolean (boolForm_encodeBool b)
  | integer n => cases h; exact .integer n
  | float x => cases h; exact .float x
  | string s =>
    obtain ⟨t, ht, h⟩ := bind_eq_ok.1 h
    cases h
    refine .string ?_ (encodeString_textForm ht)
    cases Bytes.isShort s
    · exact .inr rfl
    · exact .inl rfl

theorem upvalueForm_encodeUpvalue (v : Upvalue) : UpvalueForm v (encodeUpvalue v) :=
  ⟨_, boolForm_encodeBool v.inStack, rfl⟩

theorem encodeLocal_form {v : LocalVariable} {u : Bytes} (h : encodeLocal v = .ok u) :
    LocalForm v u := by
  obtain ⟨name, hname, h⟩ := bind_eq_ok.1 h
  cases h
  exact ⟨name, encodeString_textForm hname, rfl⟩

/-! ## Tables -/

section
variable {α : Type} {entry : α → Except EncodeError Bytes}

theorem RowsForm.mono {L M : α → Bytes → Prop} {xs : List α} {u : Bytes} (h : RowsForm L xs u)
    (hLM : ∀ x ∈ xs, ∀ v, L x v → M x v) : RowsForm M xs u := by
  obtain ⟨rows, hrows, rfl, rfl⟩ := h
  exact ⟨rows, fun row hr => hLM _ (List.mem_map_of_mem hr) _ (hrows row hr), rfl, rfl⟩

theorem TableForm.mono {L M : α → Bytes → Prop} {xs : List α} {u : Bytes} (h : TableForm L xs u)
    (hLM : ∀ x ∈ xs, ∀ v, L x v → M x v) : TableForm M xs u := by
  obtain ⟨hlen, rows, hrows, hu⟩ := h
  exact ⟨hlen, rows, hrows.mono hLM, hu⟩

theorem mapM_eq_ok {xs : List α} {u : Bytes} :
    (∃ vs, xs.mapM entry = .ok vs ∧ vs.flatten = u) ↔ RowsForm (fun x v => entry x = .ok v) xs u := by
  induction xs generalizing u with
  | nil =>
    rw [rowsForm_nil_iff, List.mapM_nil]
    exact ⟨fun ⟨vs, h, hu⟩ => by cases h; exact hu.symm, fun h => ⟨[], rfl, h.symm⟩⟩
  | cons x xs ih =>
    rw [rowsForm_cons_iff, List.mapM_cons]
    refine ⟨fun h => ?_, fun h => ?_⟩
    · obtain ⟨_, h, rfl⟩ := h
      obtain ⟨v, hv, h⟩ := bind_eq_ok.1 h
      obtain ⟨vs, hvs, h⟩ := bind_eq_ok.1 h
      cases h
      exact ⟨v, vs.flatten, hv, ih.1 ⟨vs, hvs, rfl⟩, rfl⟩
    · obtain ⟨v, w, hv, hw, rfl⟩ := h
      obtain ⟨vs, hvs, rfl⟩ := ih.2 hw
      exact ⟨v :: vs, bind_eq_ok.2 ⟨v, hv, bind_eq_ok.2 ⟨vs, hvs, rfl⟩⟩, rfl⟩

/-- **A written table** is a table of the grammar, with entries as the writer of entries wrote them. -/
theorem encodeTable_eq_ok {part : Part} {xs : List α} {u : Bytes} :
    encodeTable part entry xs = .ok u ↔ TableForm (fun x v => entry x = .ok v) xs u := by
  unfold encodeTable
  refine ⟨fun h => ?_, fun h => ?_⟩
  · obtain ⟨count, hcount, h⟩ := bind_eq_ok.1 h
    obtain ⟨vs, hvs, h⟩ := bind_eq_ok.1 h
    cases h
    obtain ⟨hlen, rfl⟩ := encodeCount_eq_ok.1 hcount
    exact ⟨hlen, vs.flatten, mapM_eq_ok.1 ⟨vs, hvs, rfl⟩, rfl⟩
  · obtain ⟨hlen, rows, hrows, rfl⟩ := h
    obtain ⟨vs, hvs, rfl⟩ := mapM_eq_ok.2 hrows
    exact bind_eq_ok.2 ⟨_, encodeCount_eq_ok.2 ⟨hlen, rfl⟩, bind_eq_ok.2 ⟨vs, hvs, rfl⟩⟩

theorem encodeTable_total_eq_ok {part : Part} {write : α → Bytes} {xs : List α} {u : Bytes} :
    encodeTable part (fun x => .ok (write x)) xs = .ok u ↔
      TableForm (fun x v => v = write x) xs u := by
  rw [encodeTable_eq_ok]
  exact ⟨fun h => h.mono fun _ _ _ hv => (Except.ok.inj hv).symm,
    fun h => h.mono fun _ _ _ hv => congrArg Except.ok hv.symm⟩

end

/-! ## Functions -/

theorem encodeFunctions_eq_ok {strip : Bool} {enclosing : Option Bytes} {ps : List Prototype}
    {u : Bytes} : encodeFunctions strip enclosing ps = .ok u ↔
      RowsForm (fun p v => encodeFunction strip enclosing p = .ok v) ps u := by
  induction ps generalizing u with
  | nil => rw [rowsForm_nil_iff, encodeFunctions, Except.ok.injEq, eq_comm]
  | cons p ps ih =>
    rw [rowsForm_cons_iff, encodeFunctions]
    refine ⟨fun h => ?_, fun h => ?_⟩
    · obtain ⟨v, hv, h⟩ := bind_eq_ok.1 h
      obtain ⟨w, hw, h⟩ := bind_eq_ok.1 h
      cases h
      exact ⟨v, w, hv, ih.1 hw, rfl⟩
    · obtain ⟨v, w, hv, hw, rfl⟩ := h
      exact bind_eq_ok.2 ⟨v, hv, bind_eq_ok.2 ⟨w, ih.2 hw, rfl⟩⟩

/-- **A written function**: what stands before the functions inside it, their table, and what stands
after them. -/
theorem encodeFunction_eq_ok {strip : Bool} {enclosing : Option Bytes} {f : FunctionBody}
    {children : List Prototype} {u : Bytes} :
    encodeFunction strip enclosing (.mk f children) = .ok u ↔
      ∃ front inside back, encodeFront strip enclosing f = .ok front ∧
        TableForm (fun p v => encodeFunction strip f.source p = .ok v) children inside ∧
        encodeBack strip f = .ok back ∧ u = front ++ inside ++ back := by
  rw [encodeFunction]
  refine ⟨fun h => ?_, fun h => ?_⟩
  · obtain ⟨front, hfront, h⟩ := bind_eq_ok.1 h
    obtain ⟨count, hcount, h⟩ := bind_eq_ok.1 h
    obtain ⟨rows, hrows, h⟩ := bind_eq_ok.1 h
    obtain ⟨back, hback, h⟩ := bind_eq_ok.1 h
    cases h
    obtain ⟨hlen, rfl⟩ := encodeCount_eq_ok.1 hcount
    refine ⟨front, _, back, hfront, ⟨hlen, rows, encodeFunctions_eq_ok.1 hrows, rfl⟩, hback, ?_⟩
    rw [List.append_assoc front]
  · obtain ⟨front, _, back, hfront, ⟨hlen, rows, hrows, rfl⟩, hback, rfl⟩ := h
    refine bind_eq_ok.2 ⟨front, hfront, bind_eq_ok.2 ⟨_, encodeCount_eq_ok.2 ⟨hlen, rfl⟩,
      bind_eq_ok.2 ⟨rows, encodeFunctions_eq_ok.2 hrows, bind_eq_ok.2 ⟨back, hback, ?_⟩⟩⟩⟩
    rw [pure_eq_ok, List.append_assoc front]

/-- What stands before the functions inside a function. The source is left out if it is that of the
enclosing function, or none. -/
theorem encodeFront_eq_ok {strip : Bool} {enclosing : Option Bytes} {f : FunctionBody} {u : Bytes} :
    encodeFront strip enclosing f = .ok u ↔
      ∃ source code constants upvalues,
        encodeString? (if strip || f.source == enclosing then none else f.source) = .ok source ∧
        TableForm InstructionForm f.code code ∧
        TableForm (fun k v => encodeConstant k = .ok v) f.constants constants ∧
        TableForm (fun x v => v = encodeUpvalue x) f.upvalues upvalues ∧
        u = source ++ word32Bytes f.lineDefined ++ word32Bytes f.lastLineDefined ++ [f.paramCount] ++
          [encodeBool f.isVararg] ++ [f.maxStackSize] ++ code ++ constants ++ upvalues := by
  unfold encodeFront
  refine ⟨fun h => ?_, fun h => ?_⟩
  · obtain ⟨source, hsource, h⟩ := bind_eq_ok.1 h
    obtain ⟨code, hcode, h⟩ := bind_eq_ok.1 h
    obtain ⟨constants, hconstants, h⟩ := bind_eq_ok.1 h
    obtain ⟨upvalues, hupvalues, h⟩ := bind_eq_ok.1 h
    refine ⟨source, code, constants, upvalues, hsource, encodeTable_total_eq_ok.1 hcode,
      encodeTable_eq_ok.1 hconstants, encodeTable_total_eq_ok.1 hupvalues, ?_⟩
    rw [← pure_eq_ok.1 h]
    simp
  · obtain ⟨source, code, constants, upvalues, hsource, hcode, hconstants, hupvalues, rfl⟩ := h
    refine bind_eq_ok.2 ⟨source, hsource, bind_eq_ok.2 ⟨code, encodeTable_total_eq_ok.2 hcode,
      bind_eq_ok.2 ⟨constants, encodeTable_eq_ok.2 hconstants,
      bind_eq_ok.2 ⟨upvalues, encodeTable_total_eq_ok.2 hupvalues, ?_⟩⟩⟩⟩
    rw [pure_eq_ok]
    simp

/-- What stands after the functions inside a function, if nothing is stripped. -/
theorem encodeBack_eq_ok {f : FunctionBody} {u : Bytes} :
    encodeBack false f = .ok u ↔
      ∃ lines locals names, TableForm LineForm f.lines lines ∧
        TableForm (fun x v => encodeLocal x = .ok v) f.locals locals ∧
        TableForm (fun x v => encodeString x = .ok v) f.upvalueNames names ∧
        u = lines ++ locals ++ names := by
  unfold encodeBack
  rw [if_neg Bool.false_ne_true]
  refine ⟨fun h => ?_, fun h => ?_⟩
  · obtain ⟨lines, hlines, h⟩ := bind_eq_ok.1 h
    obtain ⟨locals, hlocals, h⟩ := bind_eq_ok.1 h
    obtain ⟨names, hnames, h⟩ := bind_eq_ok.1 h
    exact ⟨lines, locals, names, encodeTable_total_eq_ok.1 hlines, encodeTable_eq_ok.1 hlocals,
      encodeTable_eq_ok.1 hnames, (pure_eq_ok.1 h).symm⟩
  · obtain ⟨lines, locals, names, hlines, hlocals, hnames, rfl⟩ := h
    exact bind_eq_ok.2 ⟨lines, encodeTable_total_eq_ok.2 hlines, bind_eq_ok.2 ⟨locals,
      encodeTable_eq_ok.2 hlocals, bind_eq_ok.2 ⟨names, encodeTable_eq_ok.2 hnames, rfl⟩⟩⟩

theorem encodeMainUpvalues_eq_ok {n : Nat} {u : Bytes} :
    encodeMainUpvalues n = .ok u ↔ n < UInt8.size ∧ u = [UInt8.ofNat n] :=
  ite_eq_ok

/-- **A written chunk**: the header, the number of upvalues in a byte, and the main function, which no
function encloses. -/
theorem encode_eq_ok {p : Prototype} {strip : Bool} {u : Bytes} :
    encode p strip = .ok u ↔ p.body.upvalues.length < UInt8.size ∧
      ∃ main, encodeFunction strip none p = .ok main ∧
        u = header ++ [UInt8.ofNat p.body.upvalues.length] ++ main := by
  unfold encode
  refine ⟨fun h => ?_, fun h => ?_⟩
  · obtain ⟨upvalues, hupvalues, h⟩ := bind_eq_ok.1 h
    obtain ⟨main, hmain, h⟩ := bind_eq_ok.1 h
    obtain ⟨hlt, rfl⟩ := encodeMainUpvalues_eq_ok.1 hupvalues
    exact ⟨hlt, main, hmain, (pure_eq_ok.1 h).symm⟩
  · obtain ⟨hlt, main, hmain, rfl⟩ := h
    exact bind_eq_ok.2 ⟨_, encodeMainUpvalues_eq_ok.2 ⟨hlt, rfl⟩, bind_eq_ok.2 ⟨main, hmain, rfl⟩⟩

end LuaKernel.Chunk
