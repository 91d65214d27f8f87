import LuaKernel.Proofs.Chunk.RoundTrip

/-!
# What loads can be written again

The trees that loading gives are few: they nest no deeper than the limit, no function of theirs without a
source is inside one that has a source, and every string and table of theirs fits its count. These are
facts about the grammar, by induction on the form a tree was read from:

* `FunctionForm.nesting_le`, `FunctionForm.sourceClosed`, `FunctionForm.writable`.
* `decode_normal_form`: so a loaded tree is written in a form that loads as the same tree, unless its main
  function has more upvalues than a byte can count.
-/

namespace LuaKernel.Chunk

/-! ## Strings and tables that fit -/

theorem encodeString_of_length {s : Bytes} (h : s.length + 1 < UInt64.size) :
    ∃ u, encodeString s = .ok u :=
  ⟨_, encodeString_eq_ok.2 ⟨h, rfl⟩⟩

theorem StringForm.writable {written : Option Bytes} {u : Bytes} (h : StringForm written u) :
    ∃ v, encodeString? written = .ok v := by
  have hsize : UInt64.size = 18446744073709551616 := rfl
  cases h with
  | absent => exact ⟨_, rfl⟩
  | short hpos hmark hlen => exact encodeString_of_length (by omega)
  | @long s size hpos hlen =>
    have hlt : size.toNat < UInt64.size := size.toNat_lt
    exact encodeString_of_length (by omega)

theorem TextForm.writable {s u : Bytes} (h : TextForm s u) : ∃ v, encodeString s = .ok v := by
  obtain ⟨written, hwritten, rfl⟩ := h
  cases written with
  | none => exact ⟨_, rfl⟩
  | some s => exact hwritten.writable

theorem ConstantForm.writable {k : Value} {u : Bytes} (h : ConstantForm k u) :
    ∃ v, encodeConstant k = .ok v := by
  cases h with
  | nil => exact ⟨_, rfl⟩
  | boolean h => exact ⟨_, rfl⟩
  | integer n => exact ⟨_, rfl⟩
  | float x => exact ⟨_, rfl⟩
  | string htag h =>
    obtain ⟨v, hv⟩ := h.writable
    exact ⟨_, bind_eq_ok.2 ⟨v, hv, rfl⟩⟩

theorem LocalForm.writable {x : LocalVariable} {u : Bytes} (h : LocalForm x u) :
    ∃ v, encodeLocal x = .ok v := by
  obtain ⟨name, hname, -⟩ := h
  obtain ⟨v, hv⟩ := hname.writable
  exact ⟨_, bind_eq_ok.2 ⟨v, hv, rfl⟩⟩

section
variable {α : Type} {L M : α → Bytes → Prop}

theorem RowsForm.rewrite {xs : List α} {u : Bytes} (h : RowsForm L xs u)
    (hLM : ∀ x ∈ xs, ∀ v, L x v → ∃ w, M x w) : ∃ w, RowsForm M xs w := by
  induction xs generalizing u with
  | nil => exact ⟨[], rowsForm_nil_iff.2 rfl⟩
  | cons x xs ih =>
    obtain ⟨v, vs, hv, hvs, -⟩ := rowsForm_cons_iff.1 h
    obtain ⟨w, hw⟩ := hLM x (.head _) v hv
    obtain ⟨ws, hws⟩ := ih hvs fun y hy => hLM y (.tail _ hy)
    exact ⟨w ++ ws, rowsForm_cons_iff.2 ⟨w, ws, hw, hws, rfl⟩⟩

/-- A table whose entries have other forms has another form. -/
theorem TableForm.rewrite {xs : List α} {u : Bytes} (h : TableForm L xs u)
    (hLM : ∀ x ∈ xs, ∀ v, L x v → ∃ w, M x w) : ∃ w, TableForm M xs w := by
  obtain ⟨hlen, rows, hrows, -⟩ := h
  obtain ⟨w, hw⟩ := hrows.rewrite hLM
  exact ⟨_, hlen, w, hw, rfl⟩

end

/-! ## Facts about loaded trees -/

theorem FrontForm.writable {enclosing : Option Bytes} {f : FunctionBody} {u : Bytes}
    (h : FrontForm enclosing f u) (henclosing : ∃ v, encodeString? enclosing = .ok v) :
    (∃ v, encodeString? f.source = .ok v) ∧ ∀ e, ∃ v, encodeFront false e f = .ok v := by
  cases h with
  | @mk written source _ code _ _ hwritten hsource hvararg hcode hconstants hupvalues =>
    have hs : ∃ v, encodeString? f.source = .ok v := by
      rw [hsource]
      cases written with
      | none => exact henclosing
      | some s => exact hwritten.writable
    refine ⟨hs, fun e => ?_⟩
    obtain ⟨constants, hconstants⟩ := hconstants.rewrite fun _ _ _ hk => hk.writable
    obtain ⟨upvalues, hupvalues⟩ := hupvalues.rewrite (M := fun x v => v = encodeUpvalue x)
      fun x _ _ _ => ⟨encodeUpvalue x, rfl⟩
    obtain ⟨source, hsource⟩ :
        ∃ v, encodeString? (if false || f.source == e then none else f.source) = .ok v := by
      split
      · exact ⟨_, rfl⟩
      · exact hs
    exact ⟨_, encodeFront_eq_ok.2
      ⟨source, code, constants, upvalues, hsource, hcode, hconstants, hupvalues, rfl⟩⟩

theorem BackForm.writable {f : FunctionBody} {u : Bytes} (h : BackForm f u) :
    ∃ v, encodeBack false f = .ok v := by
  cases h with
  | mk hlines hlocals hnames =>
    obtain ⟨locals, hlocals⟩ := hlocals.rewrite fun _ _ _ hv => hv.writable
    obtain ⟨names, hnames⟩ := hnames.rewrite fun _ _ _ hv => hv.writable
    exact ⟨_, encodeBack_eq_ok.2 ⟨_, locals, names, hlines, hlocals, hnames, rfl⟩⟩

theorem FunctionForm.nesting_le {depth : Nat} {enclosing : Option Bytes} {p : Prototype} {u : Bytes}
    (h : FunctionForm depth enclosing p u) : depth + p.nesting ≤ 200 := by
  induction h with
  | @mk depth enclosing f front back inside hdepth hfront hcount hinside hback ih =>
    have hle : (Prototype.mk f (inside.map Prod.fst)).nesting ≤ 200 - depth := by
      rw [Prototype.nesting_mk_le]
      intro c hc
      obtain ⟨row, hrow, rfl⟩ := List.mem_map.1 hc
      have := ih row hrow
      omega
    omega

theorem FunctionForm.sourceClosed {depth : Nat} {enclosing : Option Bytes} {p : Prototype} {u : Bytes}
    (h : FunctionForm depth enclosing p u) :
    (p.body.source = none → enclosing = none) ∧ p.SourceClosed := by
  induction h with
  | @mk depth enclosing f front back inside hdepth hfront hcount hinside hback ih =>
    constructor
    · intro hnone
      cases hfront with
      | mk hwritten hsource =>
        exact (Option.or_eq_none_iff.1 (hsource.symm.trans hnone)).2
    · rw [Prototype.sourceClosed_mk]
      intro c hc
      obtain ⟨row, hrow, rfl⟩ := List.mem_map.1 hc
      exact ih row hrow

/-- A function that was read can be written, inside any other. Its source may be the one it inherited, so
that one has to fit too. -/
theorem FunctionForm.writable {depth : Nat} {enclosing : Option Bytes} {p : Prototype} {u : Bytes}
    (h : FunctionForm depth enclosing p u) (henclosing : ∃ v, encodeString? enclosing = .ok v)
    (e : Option Bytes) : ∃ v, encodeFunction false e p = .ok v := by
  induction h generalizing e with
  | @mk depth enclosing f front back inside hdepth hfront hcount hinside hback ih =>
    obtain ⟨hsource, hfront⟩ := hfront.writable henclosing
    obtain ⟨front', hfront⟩ := hfront e
    obtain ⟨back', hback⟩ := hback.writable
    have hrows : TableForm (FunctionForm (depth + 1) f.source) (inside.map Prod.fst) _ :=
      ⟨by rwa [List.length_map], _, ⟨inside, hinside, rfl, rfl⟩, rfl⟩
    obtain ⟨inside', hinside⟩ : ∃ w, TableForm (fun c v => encodeFunction false f.source c = .ok v)
        (inside.map Prod.fst) w := hrows.rewrite fun c hc _ _ => by
      obtain ⟨row, hrow, rfl⟩ := List.mem_map.1 hc
      exact ih row hrow hsource f.source
    exact ⟨_, encodeFunction_eq_ok.2 ⟨front', inside', back', hfront, hinside, hback, rfl⟩⟩

/-! ## Writing a loaded tree -/

/-- More upvalues than a byte counts are refused before anything else is looked at. -/
theorem encode_of_mainUpvalues {p : Prototype} (h : UInt8.size ≤ p.body.upvalues.length)
    (strip : Bool) : encode p strip =
      .error (.tooLarge .mainUpvalues p.body.upvalues.length) := by
  unfold encode encodeMainUpvalues
  rw [if_neg (by omega)]
  rfl

/-- **What loads is written in a normal form.** A loaded tree nests no deeper than the limit and is
closed. Writing it fails only if its main function has more than 255 upvalues, and with that error;
otherwise the chunk written loads as the same tree, and so is what the tree it loads as is written as. -/
theorem decode_normal_form {d : Bytes} {p : Prototype} (h : decode d = .ok p) :
    p.nesting ≤ 200 ∧ p.SourceClosed ∧
      ((∃ e, encode p false = .error e) ↔ 255 < p.body.upvalues.length) ∧
      (255 < p.body.upvalues.length →
        encode p false = .error (.tooLarge .mainUpvalues p.body.upvalues.length)) ∧
      (p.body.upvalues.length ≤ 255 → ∃ c, encode p false = .ok c ∧ decode c = .ok p ∧
        ∀ q, decode c = .ok q → encode q false = .ok c) := by
  obtain ⟨_, u, _, -, hu⟩ := form_of_decode h
  have hnesting : p.nesting ≤ 200 := by
    have := hu.nesting_le
    omega
  have hclosed := hu.sourceClosed.2
  have hsize : UInt8.size = 256 := rfl
  have hsmall : p.body.upvalues.length ≤ 255 → ∃ c, encode p false = .ok c := by
    intro hle
    obtain ⟨main, hmain⟩ := hu.writable ⟨_, rfl⟩ none
    exact ⟨_, encode_eq_ok.2 ⟨by omega, main, hmain, rfl⟩⟩
  have hlarge (hlt : 255 < p.body.upvalues.length) :=
    encode_of_mainUpvalues (show 256 ≤ _ from hlt) false
  refine ⟨hnesting, hclosed, ⟨fun h => ?_, fun hlt => ⟨_, hlarge hlt⟩⟩, hlarge, fun hle => ?_⟩
  · obtain ⟨e, he⟩ := h
    refine Classical.byContradiction fun hn => ?_
    obtain ⟨c, hc⟩ := hsmall (by omega)
    rw [hc] at he
    cases he
  · obtain ⟨c, hc⟩ := hsmall hle
    have hload : decode c = .ok p := by
      rw [decode_of_encode hc, if_pos hnesting, Prototype.resolve_eq_self hclosed fun _ => rfl]
    refine ⟨c, hc, hload, fun q hq => ?_⟩
    rw [hload] at hq
    cases hq
    exact hc

/-- A chunk in other than normal form: a short source in the long form, an absent string constant, 5 and
7 for true, and bytes after the chunk. -/
theorem decode_normal_form_foreign :
    let zeros := List.replicate 4 (0 : UInt8)
    let front : Bytes := zeros ++ zeros ++ [0, 7, 2] ++ zeros
    let inside : Bytes := [0] ++ front ++ zeros ++ zeros ++ zeros ++ zeros ++ zeros ++ zeros
    let d : Bytes := header ++ [9] ++ [0xff, 2, 0, 0, 0, 0, 0, 0, 0, 0x6d] ++ front ++
      [2, 0, 0, 0, 0x14, 0, 1, 5] ++ zeros ++ [1, 0, 0, 0] ++ inside ++ zeros ++ zeros ++ zeros ++ [8, 8]
    ∃ p c, decode d = .ok p ∧ p.SourceClosed ∧ encode p false = .ok c ∧ c ≠ d ∧ decode c = .ok p := by
  intro zeros front inside d
  -- How many upvalues the tree has, and whether it is written as other bytes.
  have hforeign : (decode d).toOption.map (fun p =>
      (p.body.upvalues.length, (encode p false).toOption.map (decide <| · ≠ d))) = some (0, some true) := by
    decide +kernel
  cases hd : decode d with
  | error e => rw [hd] at hforeign; cases hforeign
  | ok p =>
    rw [hd] at hforeign
    obtain ⟨hzero, hother⟩ := Prod.mk.inj (Option.some.inj hforeign)
    obtain ⟨-, hclosed, -, -, hwrite⟩ := decode_normal_form hd
    obtain ⟨c, hc, hload, -⟩ := hwrite (by omega)
    rw [hc] at hother
    exact ⟨p, c, rfl, hclosed, hc, of_decide_eq_true (Option.some.inj hother), hload⟩

end LuaKernel.Chunk
