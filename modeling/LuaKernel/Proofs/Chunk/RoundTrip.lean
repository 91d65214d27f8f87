import LuaKernel.Proofs.Chunk.Recognition
import LuaKernel.Proofs.Chunk.Writing
import LuaKernel.Proofs.Prototype.Sources

/-!
# Loading what was written

A written chunk loads as the tree it was written from, up to sources that were left out: the writer
leaves out a source that is the enclosing function's *own*, and the loader fills in the one the enclosing
function *resolved to*. The two agree as long as what the loader has resolved extends what the writer
compares with (`enclosing.or resolved = resolved`), which each step down the tree keeps.

* `run_table_of`: a table of entries that each read back or all fail alike reads back or fails alike.
* `run_readFunction_of_encode`: a written function reads back resolved, or nests too deep for the levels.
* `decode_encode`: the same for chunks.
-/

namespace LuaKernel.Chunk

open Reader

/-! ## Tables -/

section
variable {α β : Type} {entry : Reader β} {L : α → Bytes → Prop} {value : α → β} {good : α → Prop}
  [DecidablePred good] {e : DecodeError}

theorem run_entries_of {xs : List α} (h : ∀ x ∈ xs, ∀ u, L x u → ∀ o t,
      entry.run ⟨o, u ++ t⟩ = if good x then .ok (value x, ⟨o + u.length, t⟩) else .error e)
    {w : Bytes} (hw : RowsForm L xs w) (o : Nat) (t : Bytes) :
    (Input.entries entry xs.length).run ⟨o, w ++ t⟩ =
      if ∀ x ∈ xs, good x then .ok (xs.map value, ⟨o + w.length, t⟩) else .error e := by
  induction xs generalizing w o with
  | nil =>
    rw [rowsForm_nil_iff.1 hw, if_pos (by simp)]
    rfl
  | cons x xs ih =>
    obtain ⟨u, v, hu, hv, rfl⟩ := rowsForm_cons_iff.1 hw
    have hx := h x (.head _) u hu o (v ++ t)
    have hxs := ih (fun y hy => h y (.tail _ hy)) hv (o + u.length)
    show (entry >>= _).run _ = _
    rw [List.append_assoc]
    by_cases hgood : good x
    · rw [if_pos hgood] at hx
      rw [run_bind_of_ok hx]
      by_cases hall : ∀ y ∈ xs, good y
      · rw [if_pos hall] at hxs
        rw [run_bind_of_ok hxs, if_pos (List.forall_mem_cons.2 ⟨hgood, hall⟩), List.length_append,
          Nat.add_assoc]
        rfl
      · rw [if_neg hall] at hxs
        rw [run_bind_of_error hxs, if_neg fun hc => hall (List.forall_mem_cons.1 hc).2]
    · rw [if_neg hgood] at hx
      rw [run_bind_of_error hx, if_neg fun hc => hgood (hc x (.head _))]

/-- **A table whose entries each read back or fail alike** reads back, or fails as its first bad entry
does. -/
theorem run_table_of {xs : List α} (h : ∀ x ∈ xs, ∀ u, L x u → ∀ o t,
      entry.run ⟨o, u ++ t⟩ = if good x then .ok (value x, ⟨o + u.length, t⟩) else .error e)
    {w : Bytes} (hw : TableForm L xs w) (leastSize o : Nat) (t : Bytes) :
    (Input.table leastSize entry).run ⟨o, w ++ t⟩ =
      if ∀ x ∈ xs, good x then .ok (xs.map value, ⟨o + w.length, t⟩) else .error e := by
  obtain ⟨hlen, v, hv, rfl⟩ := hw
  have hn : (UInt32.ofNat xs.length).toNat = xs.length := UInt32.toNat_ofNat_of_lt' hlen
  have hcount := accepts_word32.complete (a := UInt32.ofNat xs.length) rfl o (v ++ t)
  rw [word32Bytes, hn] at hcount
  have hentries := run_entries_of h hv (o + (Bytes.leBytes 4 xs.length).length) t
  show (Input.word32 >>= _ : Reader (List β)).run _ = _
  rw [List.append_assoc, run_bind_of_ok hcount, hn, List.length_append, ← Nat.add_assoc]
  exact hentries

end

/-! ## Functions -/

/-- A written front is that of the function with its resolved source. -/
theorem encodeFront_form {enclosing resolved : Option Bytes} {f : FunctionBody} {u : Bytes}
    (h : encodeFront false enclosing f = .ok u) (hres : enclosing.or resolved = resolved) :
    FrontForm resolved { f with source := f.source.or resolved } u := by
  obtain ⟨source, code, constants, upvalues, hsource, hcode, hconstants, hupvalues, rfl⟩ :=
    encodeFront_eq_ok.1 h
  refine .mk (encodeString?_form hsource) ?_ (boolForm_encodeBool _) hcode
    (hconstants.mono fun _ _ _ hk => encodeConstant_form hk)
    (hupvalues.mono fun v _ _ hv => hv ▸ upvalueForm_encodeUpvalue v)
  -- A source that is left out is the enclosing function's own.
  by_cases hf : f.source = enclosing
  · simp only [hf, beq_self_eq_true, Bool.or_true, if_true, Option.none_or, hres]
  · simp only [Bool.false_or, beq_iff_eq, hf, if_false]

/-- A written back is that of the function, whatever its source. -/
theorem encodeBack_form {f : FunctionBody} {u : Bytes} (h : encodeBack false f = .ok u)
    (source : Option Bytes) : BackForm { f with source } u := by
  obtain ⟨lines, locals, names, hlines, hlocals, hnames, rfl⟩ := encodeBack_eq_ok.1 h
  exact .mk hlines (hlocals.mono fun _ _ _ hv => encodeLocal_form hv)
    (hnames.mono fun _ _ _ hv => encodeString_textForm hv)

/-- **A written function reads back** with its sources resolved, if it nests less deep than there are
levels left; otherwise reading ends at the first function that is too deep. -/
theorem run_readFunction_of_encode {p : Prototype} (levels : Nat) {enclosing resolved : Option Bytes}
    {u : Bytes} (h : encodeFunction false enclosing p = .ok u)
    (hres : enclosing.or resolved = resolved) (o : Nat) (t : Bytes) :
    (readFunction levels resolved : Reader Prototype).run ⟨o, u ++ t⟩ =
      if p.nesting < levels then .ok (p.resolve resolved, ⟨o + u.length, t⟩)
      else .error (.nestedTooDeep nestingLimit) := by
  induction p generalizing levels enclosing resolved u o t with
  | mk f children ih =>
    cases levels with
    | zero => rw [if_neg (Nat.not_lt_zero _)]; rfl
    | succ levels =>
      obtain ⟨front, inside, back, hfront, hinside, hback, rfl⟩ := encodeFunction_eq_ok.1 h
      let g : FunctionBody := { f with source := f.source.or resolved }
      let g₀ : FunctionBody := { g with lines := [], locals := [], upvalueNames := [] }
      have hf := (accepts_readFront resolved).complete (a := g₀)
        ⟨(encodeFront_form hfront hres).withBack [] [] [], rfl, rfl, rfl⟩ o (inside ++ (back ++ t))
      -- What the children resolve against extends what they were written against.
      have hsource : f.source.or g₀.source = g₀.source := by
        show f.source.or (f.source.or resolved) = f.source.or resolved
        cases f.source <;> rfl
      have hi : (Input.table 1 (readFunction levels g₀.source) : Reader (List Prototype)).run
          ⟨o + front.length, inside ++ (back ++ t)⟩ =
            if ∀ c ∈ children, c.nesting < levels then
              .ok (children.map (Prototype.resolve g₀.source),
                ⟨o + front.length + inside.length, back ++ t⟩)
            else .error (.nestedTooDeep nestingLimit) :=
        run_table_of (fun c hc v hv o t => ih c hc levels hv hsource o t) hinside 1 _ _
      have hb := (accepts_readBack g₀).complete (a := g) ⟨encodeBack_form hback _, rfl⟩
        (o + front.length + inside.length) t
      show (readFront resolved >>= _ : Reader Prototype).run _ = _
      rw [List.append_assoc, List.append_assoc, run_bind_of_ok hf]
      by_cases hgood : ∀ c ∈ children, c.nesting < levels
      · rw [if_pos hgood] at hi
        rw [run_bind_of_ok hi, run_bind_of_ok hb,
          if_pos (Nat.lt_succ_of_le (Prototype.nesting_mk_le.2 hgood)), Prototype.resolve_mk]
        simp only [List.length_append, Nat.add_assoc]
        rfl
      · rw [if_neg hgood] at hi
        rw [run_bind_of_error hi,
          if_neg fun hlt => hgood (Prototype.nesting_mk_le.1 (Nat.le_of_lt_succ hlt))]

/-! ## Chunks -/

/-- Behind a right header and the byte after it, loading is reading the main function. -/
theorem decode_header (b : UInt8) (s : Bytes) : decode (header ++ [b] ++ s) =
    ((readFunction (nestingLimit + 1) none : Reader Prototype).run ⟨headerSize + 1, s⟩).map Prod.fst := by
  have hlen : ¬ (header ++ [b] ++ s).length < headerSize := by
    simp only [List.length_append, length_header]
    omega
  have hheader : (readHeader headerFields : Reader Unit).run ⟨0, header ++ ([b] ++ s)⟩ =
      .ok ((), ⟨0 + header.length, [b] ++ s⟩) :=
    (accepts_readHeader headerFields).complete rfl 0 ([b] ++ s)
  have hbyte := accepts_byte.complete (a := b) rfl (0 + header.length) s
  have hrun : (readChunk : Reader Prototype).run ⟨0, header ++ ([b] ++ s)⟩ =
      (readFunction (nestingLimit + 1) none : Reader Prototype).run ⟨headerSize + 1, s⟩ := by
    show (readHeader headerFields >>= _ : Reader Prototype).run _ = _
    rw [run_bind_of_ok hheader, run_bind_of_ok hbyte, length_header]
    rfl
  rw [decode, if_neg hlen, List.append_assoc, hrun]

theorem decode_of_encode {p : Prototype} {c : Bytes} (h : encode p false = .ok c) :
    decode c = if p.nesting ≤ 200 then .ok (p.resolve none) else .error (.nestedTooDeep 200) := by
  obtain ⟨-, main, hmain, rfl⟩ := encode_eq_ok.1 h
  have hres : (none : Option Bytes).or none = none := rfl
  have hread := run_readFunction_of_encode (nestingLimit + 1) hmain hres (headerSize + 1) []
  rw [List.append_nil] at hread
  rw [decode_header, hread]
  by_cases hle : p.nesting ≤ 200
  · have hlt : p.nesting < nestingLimit + 1 := Nat.lt_succ_of_le hle
    rw [if_pos hle, if_pos hlt]
    rfl
  · have hge : ¬p.nesting < nestingLimit + 1 := fun hlt => hle (Nat.le_of_lt_succ hlt)
    rw [if_neg hle, if_neg hge]
    rfl

/-- **Loading undoes writing.** A chunk written from a tree that nests no deeper than the limit loads as
the tree with its sources resolved, which is the tree itself if it is closed; one written from a deeper
tree is refused for its nesting. -/
theorem decode_encode {p : Prototype} {c : Bytes} (h : encode p false = .ok c) :
    (p.nesting ≤ 200 →
        decode c = .ok (p.resolve none) ∧ (p.SourceClosed → decode c = .ok p)) ∧
      (200 < p.nesting → decode c = .error (.nestedTooDeep 200)) := by
  have hc := decode_of_encode h
  refine ⟨fun hle => ?_, fun hlt => ?_⟩
  · rw [if_pos hle] at hc
    refine ⟨hc, fun hclosed => ?_⟩
    rw [hc, Prototype.resolve_eq_self hclosed fun _ => rfl]
  · rw [hc, if_neg (by omega)]

/-- A function that left its source out around one that names it, and functions too deep by one. -/
theorem decode_encode_inherited_deep :
    (∃ c, encode (.mk { source := some [0x6d] } [.mk {} [.mk { source := some [0x6d] } []]]) false =
        .ok c ∧
      decode c = .ok (.mk { source := some [0x6d] } [.mk { source := some [0x6d] }
        [.mk { source := some [0x6d] } []]])) ∧
    ∃ c, encode (Nat.repeat (fun p => .mk {} [p]) 201 (.mk {} [])) false = .ok c ∧
      decode c = .error (.nestedTooDeep 200) := by
  constructor
  · obtain ⟨c, hc⟩ : ∃ c, encode (.mk { source := some [0x6d] }
        [.mk {} [.mk { source := some [0x6d] } []]]) false = .ok c := ⟨_, rfl⟩
    exact ⟨c, hc, ((decode_encode hc).1 (by decide)).1⟩
  · have hok : (encode (Nat.repeat (fun p => .mk {} [p]) 201 (.mk {} [])) false).isOk = true := by
      decide +kernel
    cases hc : encode (Nat.repeat (fun p => .mk {} [p]) 201 (.mk {} [])) false with
    | error e => rw [hc] at hok; cases hok
    | ok c => exact ⟨c, rfl, (decode_encode hc).2 (by decide +kernel)⟩

end LuaKernel.Chunk
