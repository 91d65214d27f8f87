import LuaKernel.Chunk.Decode
import LuaKernel.Proofs.Chunk.Grammar

/-!
# Loading accepts exactly the grammar

`Reader.Accepts r L`: wherever it starts, the reader `r` succeeds with `a` exactly on the inputs that
begin with a word of `L a`, takes that word and leaves what follows. The language of a reader is put
together from those of its parts (`Accepts.pure`, `Accepts.bind`, `Accepts.ite`), so each reader of the
loader has the forms of the grammar as its language:

* `accepts_entries`, `accepts_table`: a counted table accepts the tables of what its entry accepts.
* `accepts_readFunction`: reading with `levels` levels left accepts the functions at the depth that leaves
  so many, by induction on the levels.
* `decode_eq_ok_iff`: a byte string loads as `p` iff it is the header, a byte, a form of `p` and anything.
-/

namespace LuaKernel.Chunk

namespace Reader

/-- `r` reads `a` exactly off the words of `L a`, whatever follows them. -/
structure Accepts {α : Type} (r : Reader α) (L : α → Bytes → Prop) : Prop where
  sound : ∀ {o : Nat} {s : Bytes} {a : α} {c : Cursor}, r.run ⟨o, s⟩ = .ok (a, c) →
    ∃ u, L a u ∧ s = u ++ c.rest ∧ c.offset = o + u.length
  complete : ∀ {a : α} {u : Bytes}, L a u → ∀ (o : Nat) (t : Bytes),
    r.run ⟨o, u ++ t⟩ = .ok (a, ⟨o + u.length, t⟩)

namespace Accepts

variable {α β : Type} {r r' : Reader α} {L L' : α → Bytes → Prop}

theorem congr (h : Accepts r L) (heq : ∀ a u, L a u ↔ L' a u) : Accepts r L' where
  sound hr := by
    obtain ⟨u, hu, hs⟩ := h.sound hr
    exact ⟨u, (heq _ _).1 hu, hs⟩
  complete hu := h.complete ((heq _ _).2 hu)

theorem pure (a : α) : Accepts (Pure.pure a) (fun b u => b = a ∧ u = []) where
  sound h := by
    cases h
    exact ⟨[], ⟨rfl, rfl⟩, rfl, rfl⟩
  complete h o t := by
    obtain ⟨rfl, rfl⟩ := h
    rfl

theorem throw (e : DecodeError) : Accepts (throw e : Reader α) (fun _ _ => False) where
  sound h := by cases h
  complete h := h.elim

theorem truncated (n : Nat) : Accepts (Input.truncated n : Reader α) (fun _ _ => False) where
  sound h := by cases h
  complete h := h.elim

/-- Reading one thing after another reads a word of each. -/
theorem bind {f : α → Reader β} {M : α → β → Bytes → Prop} (hr : Accepts r L)
    (hf : ∀ a, Accepts (f a) (M a)) :
    Accepts (r >>= f) (fun b w => ∃ a u v, L a u ∧ M a b v ∧ w = u ++ v) where
  sound h := by
    obtain ⟨a, c', h1, h2⟩ := run_bind_ok h
    obtain ⟨u, hu, rfl, ho⟩ := hr.sound h1
    obtain ⟨v, hv, hrest, ho'⟩ := (hf a).sound h2
    refine ⟨u ++ v, ⟨a, u, v, hu, hv, rfl⟩, ?_, ?_⟩
    · rw [hrest, List.append_assoc]
    · rw [ho', ho, List.length_append, Nat.add_assoc]
  complete h o t := by
    obtain ⟨a, u, v, hu, hv, rfl⟩ := h
    rw [List.append_assoc, run_bind_of_ok (hr.complete hu o (v ++ t)), (hf a).complete hv,
      List.length_append, Nat.add_assoc]

theorem map (hr : Accepts r L) (g : α → β) :
    Accepts (r >>= fun a => Pure.pure (g a)) (fun b u => ∃ a, L a u ∧ b = g a) := by
  refine (hr.bind fun a => pure (g a)).congr fun b w => ⟨fun h => ?_, fun h => ?_⟩
  · obtain ⟨a, u, v, hu, ⟨rfl, rfl⟩, rfl⟩ := h
    exact ⟨a, by rwa [List.append_nil], rfl⟩
  · obtain ⟨a, ha, rfl⟩ := h
    exact ⟨a, w, [], ha, ⟨rfl, rfl⟩, (List.append_nil w).symm⟩

theorem ite {p : Prop} [Decidable p] (h : p → Accepts r L) (h' : ¬p → Accepts r' L') :
    Accepts (if p then r else r') (fun a u => if p then L a u else L' a u) := by
  by_cases hp : p
  · simpa only [hp, if_true] using h hp
  · simpa only [hp, if_false] using h' hp

end Accepts

/-! ## Bytes, words and strings -/

theorem accepts_take (n : Nat) : Accepts (Input.take n) (fun s u => u = s ∧ s.length = n) where
  sound {o s a c} h := by
    rw [run_take] at h
    split at h
    · rename_i hn
      cases h
      exact ⟨_, ⟨rfl, hn⟩, (List.take_append_drop n s).symm, by rw [hn]⟩
    · cases h
  complete h o t := by
    obtain ⟨rfl, rfl⟩ := h
    rw [run_take, List.take_left, List.drop_left, if_pos rfl]

theorem accepts_byte : Accepts Input.byte (fun b u => u = [b]) where
  sound {o s a c} h := by
    rw [run_byte] at h
    cases s with
    | nil => cases h
    | cons b s =>
      cases h
      exact ⟨[a], rfl, rfl, rfl⟩
  complete h o t := by
    subst h
    rfl

theorem accepts_bool : Accepts Input.bool BoolForm := by
  refine (accepts_byte.map (· != 0)).congr fun b u => ⟨fun h => ?_, fun h => ?_⟩
  · obtain ⟨x, rfl, rfl⟩ := h
    exact ⟨x, rfl, rfl⟩
  · obtain ⟨x, rfl, rfl⟩ := h
    exact ⟨x, rfl, rfl⟩

/-- A word of `w` bytes, of a type that holds the numbers below `256 ^ w`. -/
theorem accepts_word {α : Type} {w : Nat} {ofNat : Nat → α} {toNat : α → Nat}
    (hlt : ∀ a, toNat a < Nat.pow 256 w) (hof : ∀ a, ofNat (toNat a) = a)
    (hto : ∀ {n}, n < Nat.pow 256 w → toNat (ofNat n) = n) :
    Accepts (Input.take w >>= fun s => pure (ofNat (Bytes.ofLeBytes s)))
      (fun a u => u = Bytes.leBytes w (toNat a)) := by
  refine ((accepts_take w).map fun s => ofNat (Bytes.ofLeBytes s)).congr
    fun a u => ⟨fun h => ?_, fun h => ?_⟩
  · obtain ⟨s, ⟨rfl, rfl⟩, rfl⟩ := h
    rw [hto (Bytes.ofLeBytes_lt u), Bytes.leBytes_ofLeBytes]
  · subst h
    refine ⟨_, ⟨rfl, Bytes.length_leBytes w _⟩, ?_⟩
    rw [Bytes.ofLeBytes_leBytes (hlt a), hof]

theorem accepts_word32 : Accepts Input.word32 (fun n u => u = word32Bytes n) :=
  accepts_word UInt32.toNat_lt (fun _ => UInt32.ofNat_toNat) UInt32.toNat_ofNat_of_lt'

theorem accepts_word64 : Accepts Input.word64 (fun n u => u = word64Bytes n) :=
  accepts_word UInt64.toNat_lt (fun _ => UInt64.ofNat_toNat) UInt64.toNat_ofNat_of_lt'

theorem accepts_string? : Accepts Input.string? StringForm := by
  have hshort (size : UInt8) := (accepts_take (size.toNat - 1)).map some
  have hlong := accepts_word64.bind fun size =>
    Accepts.ite (p := size = 0) (fun _ => .truncated (UInt64.size - 1))
      (fun _ => (accepts_take (size.toNat - 1)).map some)
  refine (accepts_byte.bind fun size => .ite (fun _ => .pure none) fun _ =>
    .ite (fun _ => hlong) fun _ => hshort size).congr fun written w => ⟨fun h => ?_, fun h => ?_⟩
  · obtain ⟨size, _, v, rfl, h, rfl⟩ := h
    split at h
    · rename_i h0
      obtain ⟨rfl, rfl⟩ := h
      subst h0
      exact .absent
    rename_i h0
    split at h
    · rename_i hmark
      obtain ⟨size', _, _, rfl, h, rfl⟩ := h
      split at h
      · exact h.elim
      rename_i h0'
      obtain ⟨s, ⟨rfl, hlen⟩, rfl⟩ := h
      subst hmark
      exact .long (by rw [← UInt64.toNat_inj] at h0'; exact Nat.pos_of_ne_zero h0') hlen
    · rename_i hmark
      obtain ⟨s, ⟨rfl, hlen⟩, rfl⟩ := h
      rw [← UInt8.toNat_inj] at h0 hmark
      have hlt := size.toNat_lt
      have h255 : longSizeMark.toNat = 255 := rfl
      exact .short (Nat.pos_of_ne_zero h0) (by omega) hlen
  · cases h with
    | absent => exact ⟨0, _, [], rfl, by rw [if_pos rfl]; exact ⟨rfl, rfl⟩, rfl⟩
    | @short s size hpos hmark hlen =>
      have h0 : size ≠ 0 := by rintro rfl; exact absurd hpos (by decide)
      have h255 : size ≠ longSizeMark := by rintro rfl; exact absurd hmark (by decide)
      refine ⟨size, [size], s, rfl, ?_, rfl⟩
      rw [if_neg h0, if_neg h255]
      exact ⟨s, ⟨rfl, hlen⟩, rfl⟩
    | @long s size hpos hlen =>
      have h0 : size ≠ 0 := by rintro rfl; exact absurd hpos (by decide)
      refine ⟨longSizeMark, [longSizeMark], word64Bytes size ++ s, rfl, ?_, rfl⟩
      rw [if_neg (by decide), if_pos rfl]
      refine ⟨size, _, s, rfl, ?_, rfl⟩
      rw [if_neg h0]
      exact ⟨s, ⟨rfl, hlen⟩, rfl⟩

theorem accepts_string : Accepts Input.string TextForm := accepts_string?.map (·.getD [])

/-! ## Tables -/

theorem accepts_entries {α : Type} {entry : Reader α} {L : α → Bytes → Prop} (h : Accepts entry L) :
    ∀ n, Accepts (Input.entries entry n) (fun xs u => xs.length = n ∧ RowsForm L xs u)
  | 0 => (Accepts.pure []).congr fun xs u => by
    refine ⟨fun h => ?_, fun h => ?_⟩
    · obtain ⟨rfl, rfl⟩ := h
      exact ⟨rfl, rowsForm_nil_iff.2 rfl⟩
    · obtain ⟨hlen, hrows⟩ := h
      obtain rfl := List.length_eq_zero_iff.1 hlen
      exact ⟨rfl, rowsForm_nil_iff.1 hrows⟩
  | n + 1 => (h.bind fun x => (accepts_entries h n).map (x :: ·)).congr fun xs w => by
    refine ⟨fun h => ?_, fun h => ?_⟩
    · obtain ⟨x, u, v, hx, ⟨xs, ⟨rfl, hxs⟩, rfl⟩, rfl⟩ := h
      exact ⟨rfl, rowsForm_cons_iff.2 ⟨u, v, hx, hxs, rfl⟩⟩
    · obtain ⟨hlen, hrows⟩ := h
      cases xs with
      | nil => cases hlen
      | cons x xs =>
        obtain ⟨u, v, hx, hxs, rfl⟩ := rowsForm_cons_iff.1 hrows
        exact ⟨x, u, v, hx, ⟨xs, ⟨Nat.succ.inj hlen, hxs⟩, rfl⟩, rfl⟩

/-- Room for a table is not part of its form. -/
theorem accepts_table {α : Type} {entry : Reader α} {L : α → Bytes → Prop} (h : Accepts entry L)
    (leastSize : Nat) : Accepts (Input.table leastSize entry) (TableForm L) := by
  refine (accepts_word32.bind fun n => accepts_entries h n.toNat).congr
    fun xs w => ⟨fun h => ?_, fun h => ?_⟩
  · obtain ⟨n, _, v, rfl, ⟨hlen, hrows⟩, rfl⟩ := h
    exact ⟨hlen ▸ n.toNat_lt, v, hrows, by rw [hlen]; rfl⟩
  · obtain ⟨hlen, v, hrows, rfl⟩ := h
    have hn : (UInt32.ofNat xs.length).toNat = xs.length := UInt32.toNat_ofNat_of_lt' hlen
    exact ⟨UInt32.ofNat xs.length, _, v, by rw [word32Bytes, hn], ⟨hn.symm, hrows⟩, rfl⟩

end Reader

open Reader

/-! ## Parts of a function -/

theorem accepts_readConstant : Accepts readConstant ConstantForm := by
  refine (accepts_byte.bind fun tag =>
    .ite (p := tag = tagNil) (fun _ => .pure Value.nil) fun _ =>
    .ite (p := tag = tagBoolean) (fun _ => accepts_bool.map Value.boolean) fun _ =>
    .ite (p := tag = tagInteger) (fun _ => accepts_word64.map fun n => Value.integer n.toInt64) fun _ =>
    .ite (p := tag = tagFloat) (fun _ => accepts_word64.map fun n => Value.float ⟨n⟩) fun _ =>
    .ite (p := tag = tagShortString ∨ tag = tagLongString) (fun _ => accepts_string.map Value.string)
      fun _ => .throw (.unknownTag tag)).congr fun k w => ⟨fun h => ?_, fun h => ?_⟩
  · obtain ⟨tag, _, v, rfl, h, rfl⟩ := h
    split at h
    · rename_i htag
      obtain ⟨rfl, rfl⟩ := h
      rw [htag]; exact .nil
    split at h
    · rename_i htag
      obtain ⟨b, hb, rfl⟩ := h
      rw [htag]; exact .boolean hb
    split at h
    · rename_i htag
      obtain ⟨n, rfl, rfl⟩ := h
      rw [htag]
      have := ConstantForm.integer n.toInt64
      rwa [UInt64.toUInt64_toInt64] at this
    split at h
    · rename_i htag
      obtain ⟨n, rfl, rfl⟩ := h
      rw [htag]; exact .float ⟨n⟩
    split at h
    · rename_i htag
      obtain ⟨s, hs, rfl⟩ := h
      exact .string htag hs
    · exact h.elim
  · -- The tags differ from one another, so each is refused by the tests before its own.
    cases h with
    | nil => exact ⟨tagNil, _, [], rfl, ⟨rfl, rfl⟩, rfl⟩
    | @boolean b u h => exact ⟨tagBoolean, _, u, rfl, ⟨b, h, rfl⟩, rfl⟩
    | integer n =>
      exact ⟨tagInteger, _, _, rfl, ⟨n.toUInt64, rfl, by rw [Int64.toInt64_toUInt64]⟩, rfl⟩
    | float x => exact ⟨tagFloat, _, _, rfl, ⟨x.bits, rfl, rfl⟩, rfl⟩
    | @string tag s u htag h =>
      refine ⟨tag, [tag], u, rfl, ?_, rfl⟩
      rcases htag with rfl | rfl
      · exact ⟨s, h, rfl⟩
      · exact ⟨s, h, rfl⟩

theorem accepts_readUpvalue : Accepts readUpvalue UpvalueForm := by
  refine (accepts_bool.bind fun inStack =>
    accepts_byte.map fun index => { inStack, index : Upvalue }).congr
    fun v w => ⟨fun h => ?_, fun h => ?_⟩
  · obtain ⟨inStack, u, _, hu, ⟨index, rfl, rfl⟩, rfl⟩ := h
    exact ⟨u, hu, rfl⟩
  · obtain ⟨u, hu, rfl⟩ := h
    exact ⟨v.inStack, u, _, hu, ⟨v.index, rfl, rfl⟩, rfl⟩

theorem accepts_readLocal : Accepts readLocal LocalForm := by
  refine (accepts_string.bind fun name => accepts_word32.bind fun startPc =>
    accepts_word32.map fun endPc => { name, startPc, endPc : LocalVariable }).congr
    fun v w => ⟨fun h => ?_, fun h => ?_⟩
  · obtain ⟨name, u, _, hu, ⟨startPc, _, _, rfl, ⟨endPc, rfl, rfl⟩, rfl⟩, rfl⟩ := h
    exact ⟨u, hu, (List.append_assoc ..).symm⟩
  · obtain ⟨u, hu, rfl⟩ := h
    exact ⟨v.name, u, _, hu, ⟨v.startPc, _, _, rfl, ⟨v.endPc, rfl, rfl⟩, rfl⟩, List.append_assoc ..⟩

/-- The tables for the debugger are not read with the front. -/
theorem accepts_readFront (enclosing : Option Bytes) : Accepts (readFront enclosing)
    (fun f u => FrontForm enclosing f u ∧ f.lines = [] ∧ f.locals = [] ∧ f.upvalueNames = []) := by
  have hcode : Accepts (Input.table 4 (Input.word32 >>= fun n => pure (⟨n⟩ : Instruction)))
      (TableForm InstructionForm) := by
    refine accepts_table ((accepts_word32.map Instruction.mk).congr fun i u => ⟨fun h => ?_, fun h => ?_⟩) 4
    · obtain ⟨n, rfl, rfl⟩ := h
      rfl
    · exact ⟨i.word, h, rfl⟩
  refine (accepts_string?.bind fun written => accepts_word32.bind fun lineDefined =>
    accepts_word32.bind fun lastLineDefined => accepts_byte.bind fun paramCount =>
    accepts_bool.bind fun isVararg => accepts_byte.bind fun maxStackSize => hcode.bind fun code =>
    (accepts_table accepts_readConstant 1).bind fun constants =>
    (accepts_table accepts_readUpvalue 2).map fun upvalues =>
      { source := written.or enclosing, lineDefined, lastLineDefined, paramCount, isVararg,
        maxStackSize, code, constants, upvalues : FunctionBody }).congr
    fun f w => ⟨fun h => ?_, fun h => ?_⟩
  · obtain ⟨written, source, _, hwritten, ⟨_, _, _, rfl, ⟨_, _, _, rfl, ⟨_, _, _, rfl, ⟨_, vararg, _,
      hvararg, ⟨_, _, _, rfl, ⟨_, _, _, hcode, ⟨_, _, _, hconstants, ⟨_, hupvalues, rfl⟩, rfl⟩, rfl⟩,
      rfl⟩, rfl⟩, rfl⟩, rfl⟩, rfl⟩, rfl⟩ := h
    refine ⟨?_, rfl, rfl, rfl⟩
    simp only [← List.append_assoc]
    exact .mk hwritten rfl hvararg hcode hconstants hupvalues
  · obtain ⟨h, hlines, hlocals, hnames⟩ := h
    cases h with
    | mk hwritten hsource hvararg hcode hconstants hupvalues =>
      refine ⟨_, _, _, hwritten, ⟨f.lineDefined, _, _, rfl, ⟨f.lastLineDefined, _, _, rfl,
        ⟨f.paramCount, _, _, rfl, ⟨_, _, _, hvararg, ⟨f.maxStackSize, _, _, rfl, ⟨_, _, _, hcode,
        ⟨_, _, _, hconstants, ⟨_, hupvalues, ?_⟩, rfl⟩, rfl⟩, rfl⟩, rfl⟩, rfl⟩, rfl⟩, rfl⟩, ?_⟩
      · cases f
        simp only at hlines hlocals hnames hsource
        simp only [hlines, hlocals, hnames, hsource]
      · simp only [List.append_assoc]

theorem accepts_readBack (f : FunctionBody) : Accepts (readBack f) (fun g u => BackForm g u ∧
    g = { f with lines := g.lines, locals := g.locals, upvalueNames := g.upvalueNames }) := by
  refine ((accepts_table accepts_word32 4).bind fun lines =>
    (accepts_table accepts_readLocal 9).bind fun locals =>
    (accepts_table accepts_string 1).map fun upvalueNames =>
      { f with lines, locals, upvalueNames }).congr fun g w => ⟨fun h => ?_, fun h => ?_⟩
  · obtain ⟨lines, _, _, hlines, ⟨locals, _, _, hlocals, ⟨names, hnames, rfl⟩, rfl⟩, rfl⟩ := h
    refine ⟨?_, rfl⟩
    rw [← List.append_assoc]
    exact .mk hlines hlocals hnames
  · obtain ⟨h, hg⟩ := h
    cases h with
    | mk hlines hlocals hnames =>
      exact ⟨_, _, _, hlines, ⟨_, _, _, hlocals, ⟨_, hnames, hg⟩, rfl⟩, List.append_assoc ..⟩

/-! ## Functions and chunks -/

/-- The front says nothing of the tables for the debugger. -/
theorem FrontForm.withBack {enclosing : Option Bytes} {f : FunctionBody} {u : Bytes}
    (h : FrontForm enclosing f u) (lines : List UInt32) (locals : List LocalVariable)
    (upvalueNames : List Bytes) : FrontForm enclosing { f with lines, locals, upvalueNames } u := by
  cases h with
  | mk hwritten hsource hvararg hcode hconstants hupvalues =>
    exact .mk hwritten hsource hvararg hcode hconstants hupvalues

/-- **Reading a function** with `levels` levels left accepts the functions at the depth that leaves so
many of the 201 levels there are. -/
theorem accepts_readFunction : ∀ {levels depth : Nat} (_ : levels + depth = 201)
    (enclosing : Option Bytes), Accepts (readFunction levels enclosing) (FunctionForm depth enclosing)
  | 0, depth, hdepth, enclosing => by
    refine (Accepts.throw (.nestedTooDeep nestingLimit)).congr fun p u => ⟨False.elim, fun h => ?_⟩
    cases h with
    | mk hle => omega
  | levels + 1, depth, hdepth, enclosing => by
    have hlevels : levels + (depth + 1) = 201 := by omega
    have hinside (f : FunctionBody) := accepts_table (accepts_readFunction hlevels f.source) 1
    refine ((accepts_readFront enclosing).bind fun front => (hinside front).bind fun children =>
      (accepts_readBack front).map fun body => Prototype.mk body children).congr
      fun p w => ⟨fun h => ?_, fun h => ?_⟩
    · obtain ⟨front, u, _, ⟨hfront, -⟩,
        ⟨children, v, _, hv, ⟨body, ⟨hback, hbody⟩, rfl⟩, rfl⟩, rfl⟩ := h
      rw [hbody] at hback ⊢
      rw [functionForm_iff, ← List.append_assoc]
      exact ⟨by omega, u, v, _, hfront.withBack .., hv, hback, rfl⟩
    · obtain ⟨f, children⟩ := p
      obtain ⟨-, u, v, w, hfront, hv, hback, rfl⟩ := functionForm_iff.1 h
      refine ⟨{ f with lines := [], locals := [], upvalueNames := [] }, u, v ++ w,
        ⟨hfront.withBack .., rfl, rfl, rfl⟩, ⟨children, v, w, hv, ⟨f, ⟨hback, rfl⟩, rfl⟩, rfl⟩, ?_⟩
      rw [List.append_assoc]

theorem accepts_readHeader : ∀ fields : List (HeaderField × Bytes),
    Accepts (readHeader fields) (fun _ u => u = fields.flatMap Prod.snd)
  | [] => (Accepts.pure ()).congr fun _ u => ⟨And.right, fun h => ⟨rfl, h⟩⟩
  | (field, expected) :: fields => by
    refine ((accepts_take expected.length).bind fun found => .ite (p := found = expected)
      (fun _ => accepts_readHeader fields) fun _ => .throw (.headerMismatch field)).congr
      fun _ w => ⟨fun h => ?_, fun h => ?_⟩
    · obtain ⟨found, _, v, ⟨rfl, -⟩, h, rfl⟩ := h
      split at h
      · rename_i hfound
        rw [h, hfound]; rfl
      · exact h.elim
    · subst h
      refine ⟨expected, _, fields.flatMap Prod.snd, ⟨rfl, rfl⟩, ?_, rfl⟩
      rw [if_pos rfl]

theorem accepts_readChunk : Accepts readChunk
    (fun p u => ∃ b v, FunctionForm 0 none p v ∧ u = header ++ [b] ++ v) := by
  refine ((accepts_readHeader headerFields).bind fun _ => accepts_byte.bind fun _ =>
    accepts_readFunction (Nat.add_zero 201) none).congr fun p w => ⟨fun h => ?_, fun h => ?_⟩
  · obtain ⟨-, _, _, rfl, ⟨b, _, v, rfl, hv, rfl⟩, rfl⟩ := h
    exact ⟨b, v, hv, (List.append_assoc ..).symm⟩
  · obtain ⟨b, v, hv, rfl⟩ := h
    exact ⟨(), _, _, rfl, ⟨b, _, v, rfl, hv, rfl⟩, List.append_assoc ..⟩

/-- A chunk loads iff its reader succeeds: the length check before it never refuses more. -/
theorem decode_eq_ok {d : Bytes} {p : Prototype} :
    decode d = .ok p ↔ ∃ c, (readChunk : Reader Prototype).run ⟨0, d⟩ = .ok (p, c) := by
  refine ⟨fun h => ?_, fun h => ?_⟩
  · unfold decode at h
    split at h
    · cases h
    · cases hrun : (readChunk : Reader Prototype).run ⟨0, d⟩ with
      | error e => rw [hrun] at h; cases h
      | ok x =>
        rw [hrun] at h
        cases h
        exact ⟨x.2, rfl⟩
  · obtain ⟨c, h⟩ := h
    obtain ⟨u, ⟨b, v, -, rfl⟩, hd, -⟩ := accepts_readChunk.sound h
    have hlen := congrArg List.length hd
    simp only [List.length_append, length_header] at hlen
    rw [decode, if_neg (by omega), h]
    rfl

theorem form_of_decode {d : Bytes} {p : Prototype} (h : decode d = .ok p) :
    ∃ (b : UInt8) (u rest : Bytes), d = header ++ [b] ++ u ++ rest ∧ FunctionForm 0 none p u := by
  obtain ⟨c, hc⟩ := decode_eq_ok.1 h
  obtain ⟨_, ⟨b, u, hu, rfl⟩, hd, -⟩ := accepts_readChunk.sound hc
  exact ⟨b, u, c.rest, hd, hu⟩

theorem decode_of_form {p : Prototype} {u : Bytes} (h : FunctionForm 0 none p u) (b : UInt8)
    (rest : Bytes) : decode (header ++ [b] ++ u ++ rest) = .ok p :=
  decode_eq_ok.2 ⟨_, accepts_readChunk.complete ⟨b, u, h, rfl⟩ 0 rest⟩

/-- **Loading accepts exactly the grammar**: the header, a byte that is passed over, a form of the main
function, which no function encloses, and anything after it. -/
theorem decode_eq_ok_iff (d : Bytes) (p : Prototype) :
    decode d = .ok p ↔
      ∃ (b : UInt8) (u rest : Bytes), d = headerBytes ++ [b] ++ u ++ rest ∧ FunctionForm 0 none p u := by
  rw [← header_eq]
  refine ⟨form_of_decode, fun h => ?_⟩
  obtain ⟨b, u, rest, rfl, hu⟩ := h
  exact decode_of_form hu b rest

end LuaKernel.Chunk
