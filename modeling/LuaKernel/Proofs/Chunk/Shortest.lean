import LuaKernel.Proofs.Chunk.NormalForm
import LuaKernel.Proofs.Chunk.Reservations

/-!
# Writing is shortest

A tree has many chunks that load as it: a short string may stand in the long form, a function inside another
may repeat the source of the enclosing one, and bytes may follow. None of them is shorter than the chunk that
is written. What is written for an entry is compared with any form of it (`TextForm.encode_length_le` and the
like), then tables entry by entry (`TableForm.length_le_of`), then trees.

* `StringForm.source_length_le`: the source that is written, or left out, against one that stood in a form.
* `FunctionForm.encode_length_le`: by induction on the tree, with the same enclosing source on both sides.
* `encode_shortest`: a loaded tree is written, loads as the same tree, and is no longer than what was loaded.
-/

namespace LuaKernel.Chunk

variable {u v : Bytes}

/-! ## Entries -/

theorem length_word64Bytes (n : UInt64) : (word64Bytes n).length = 8 := Bytes.length_leBytes ..

/-- A string that fits the short form is written in it. -/
theorem StringForm.encode_length_le {s : Bytes} (h : StringForm (some s) u) (hv : encodeString s = .ok v) :
    v.length ≤ u.length := by
  obtain ⟨-, rfl⟩ := encodeString_eq_ok.1 hv
  cases h with
  | short hpos hmark hlen =>
    rw [if_pos (by omega)]
    exact le_rfl
  | long hpos hlen =>
    rw [List.length_cons, List.length_append, length_word64Bytes]
    split
    · rw [List.length_cons]
      omega
    · rw [List.length_cons, List.length_append, Bytes.length_leBytes]

theorem TextForm.encode_length_le {s : Bytes} (h : TextForm s u) (hv : encodeString s = .ok v) :
    v.length ≤ u.length := by
  obtain ⟨written, hwritten, rfl⟩ := h
  cases written with
  | some s => exact hwritten.encode_length_le hv
  | none =>
    -- An empty string takes a byte, as an absent one does.
    cases hv
    exact hwritten.length_le

theorem ConstantForm.encode_length_le {k : Value} (h : ConstantForm k u) (hv : encodeConstant k = .ok v) :
    v.length ≤ u.length := by
  cases h with
  | nil =>
    cases hv
    exact le_rfl
  | boolean hbool =>
    cases hv
    exact Nat.succ_le_succ hbool.length_eq.ge
  | integer n =>
    cases hv
    exact le_rfl
  | float x =>
    cases hv
    exact le_rfl
  | string htag htext =>
    obtain ⟨t, ht, hv⟩ := bind_eq_ok.1 hv
    cases hv
    exact Nat.succ_le_succ (htext.encode_length_le ht)

theorem LocalForm.encode_length_le {x : LocalVariable} (h : LocalForm x u) (hv : encodeLocal x = .ok v) :
    v.length ≤ u.length := by
  obtain ⟨name, hname, rfl⟩ := h
  obtain ⟨t, ht, hv⟩ := bind_eq_ok.1 hv
  cases hv
  have := hname.encode_length_le ht
  simp only [List.length_append]
  omega

/-- **A source that is written** is no longer than the one in a form, and is left out where the form could
have left it out. -/
theorem StringForm.source_length_le {written source enclosing : Option Bytes} (h : StringForm written u)
    (hsource : source = written.or enclosing)
    (hv : encodeString? (if false || source == enclosing then none else source) = .ok v) :
    v.length ≤ u.length := by
  by_cases hsame : source = enclosing
  · have hpos := h.length_le
    rw [if_pos (by simp [hsame])] at hv
    cases hv
    rw [List.length_singleton]
    omega
  · rw [if_neg (by simp [hsame])] at hv
    cases written with
    | none => exact absurd hsource hsame
    | some s =>
      rw [hsource] at hv
      exact h.encode_length_le hv

/-! ## Tables -/

section
variable {α : Type} {L M : α → Bytes → Prop} {xs : List α}

theorem RowsForm.length_le_of (hu : RowsForm L xs u) (hv : RowsForm M xs v)
    (h : ∀ x ∈ xs, ∀ u v, L x u → M x v → v.length ≤ u.length) : v.length ≤ u.length := by
  induction xs generalizing u v with
  | nil => rw [rowsForm_nil_iff.1 hu, rowsForm_nil_iff.1 hv]
  | cons x xs ih =>
    obtain ⟨a, as, ha, has, rfl⟩ := rowsForm_cons_iff.1 hu
    obtain ⟨b, bs, hb, hbs, rfl⟩ := rowsForm_cons_iff.1 hv
    have hfirst := h x (.head _) a b ha hb
    have hrest := ih has hbs fun y hy => h y (.tail _ hy)
    rw [List.length_append, List.length_append]
    omega

/-- **Tables compare entry by entry**, as their counts are equal. -/
theorem TableForm.length_le_of (hu : TableForm L xs u) (hv : TableForm M xs v)
    (h : ∀ x ∈ xs, ∀ u v, L x u → M x v → v.length ≤ u.length) : v.length ≤ u.length := by
  obtain ⟨-, rows, hrows, rfl⟩ := hu
  obtain ⟨-, rows', hrows', rfl⟩ := hv
  have := hrows.length_le_of hrows' h
  simp only [List.length_append, Bytes.length_leBytes]
  omega

end

/-! ## Functions -/

theorem FrontForm.encode_length_le {enclosing : Option Bytes} {f : FunctionBody}
    (h : FrontForm enclosing f u) (hv : encodeFront false enclosing f = .ok v) : v.length ≤ u.length := by
  obtain ⟨hwritten, hsource, hvararg, hcode, hconstants, hupvalues⟩ := h
  obtain ⟨source', code', constants', upvalues', hsource', hcode', hconstants', hupvalues', rfl⟩ :=
    encodeFront_eq_ok.1 hv
  have hsource := hwritten.source_length_le hsource hsource'
  have hvararg := hvararg.length_eq
  have hcode := hcode.length_le_of hcode' fun _ _ _ _ hx hy => (hy.length_eq.trans hx.length_eq.symm).le
  have hconstants := hconstants.length_le_of hconstants' fun _ _ _ _ hx hy => hx.encode_length_le hy
  have hupvalues := hupvalues.length_le_of hupvalues' fun x _ _ _ hx hy => by
    rw [hy, hx.length_eq]
    exact le_rfl
  simp only [List.length_append, List.length_singleton]
  omega

theorem BackForm.encode_length_le {f : FunctionBody} (h : BackForm f u) (hv : encodeBack false f = .ok v) :
    v.length ≤ u.length := by
  obtain ⟨hlines, hlocals, hnames⟩ := h
  obtain ⟨lines', locals', names', hlines', hlocals', hnames', rfl⟩ := encodeBack_eq_ok.1 hv
  have hlines := hlines.length_le_of hlines' fun _ _ _ _ hx hy => (hy.length_eq.trans hx.length_eq.symm).le
  have hlocals := hlocals.length_le_of hlocals' fun _ _ _ _ hx hy => hx.encode_length_le hy
  have hnames := hnames.length_le_of hnames' fun _ _ _ _ hx hy => hx.encode_length_le hy
  simp only [List.length_append]
  omega

/-- **A written function is no longer than any form of it.** The functions inside it are written, and stand in
the form, inside the same source. -/
theorem FunctionForm.encode_length_le {p : Prototype} {depth : ℕ} {enclosing : Option Bytes}
    (h : FunctionForm depth enclosing p u) (hv : encodeFunction false enclosing p = .ok v) :
    v.length ≤ u.length := by
  induction p generalizing depth enclosing u v with
  | mk f children ih =>
    obtain ⟨-, front, inside, back, hfront, hinside, hback, rfl⟩ := functionForm_iff.1 h
    obtain ⟨front', inside', back', hfront', hinside', hback', rfl⟩ := encodeFunction_eq_ok.1 hv
    have hfront := hfront.encode_length_le hfront'
    have hinside := hinside.length_le_of hinside' fun c hc _ _ hx hy => ih c hc hx hy
    have hback := hback.encode_length_le hback'
    simp only [List.length_append]
    omega

/-! ## Chunks -/

/-- **Writing is shortest.** A tree that a chunk loads as, with at most 255 upvalues in its main function, is
written as a chunk that loads as the same tree and is no longer than the first: of all chunks that load as the
tree, none is shorter. -/
theorem encode_shortest {d : Bytes} {p : Prototype} (h : decode d = .ok p)
    (hupvalues : p.body.upvalues.length ≤ 255) :
    ∃ c, encode p false = .ok c ∧ decode c = .ok p ∧ c.length ≤ d.length := by
  obtain ⟨b, u, rest, rfl, hu⟩ := form_of_decode h
  obtain ⟨main, hmain⟩ := hu.writable ⟨_, rfl⟩ none
  have hcount : p.body.upvalues.length < UInt8.size := Nat.lt_succ_of_le hupvalues
  have hc := encode_eq_ok.2 ⟨hcount, main, hmain, rfl⟩
  have hnesting : p.nesting ≤ 200 := by
    have := hu.nesting_le
    omega
  refine ⟨_, hc, ?_, ?_⟩
  · rw [decode_of_encode hc, if_pos hnesting, Prototype.resolve_eq_self hu.sourceClosed.2 fun _ => rfl]
  · have := hu.encode_length_le hmain
    simp only [List.length_append, List.length_singleton]
    omega

/-- A chunk with a string in the long form that fits the short one, a function that repeats the source it
would inherit, and bytes after the chunk. -/
theorem encode_shortest_repeated :
    let zeros := List.replicate 4 (0 : UInt8)
    let source : Bytes := [0xff, 2, 0, 0, 0, 0, 0, 0, 0, 0x6d]
    let front : Bytes := source ++ zeros ++ zeros ++ [0, 0, 2] ++ zeros ++ zeros ++ zeros
    let inside : Bytes := front ++ zeros ++ zeros ++ zeros ++ zeros
    let d : Bytes := header ++ [0] ++ front ++ [1, 0, 0, 0] ++ inside ++ zeros ++ zeros ++ zeros ++ [8, 8]
    ∃ p c, decode d = .ok p ∧ p.body.upvalues.length ≤ 255 ∧ encode p false = .ok c ∧ decode c = .ok p ∧
      c.length ≤ d.length := by
  intro zeros source front inside d
  have hnone : (decode d).toOption.map (·.body.upvalues.length) = some 0 := by decide +kernel
  cases hd : decode d with
  | error e =>
    rw [hd] at hnone
    cases hnone
  | ok p =>
    rw [hd] at hnone
    have hupvalues : p.body.upvalues.length ≤ 255 := (Option.some.inj hnone).trans_le (Nat.zero_le _)
    obtain ⟨c, hc, hload, hle⟩ := encode_shortest hd hupvalues
    exact ⟨p, c, rfl, hupvalues, hc, hload, hle⟩

end LuaKernel.Chunk
