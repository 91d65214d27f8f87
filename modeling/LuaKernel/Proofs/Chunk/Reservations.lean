import Mathlib
import LuaKernel.Proofs.Chunk.Recognition
import LuaKernel.Proofs.Chunk.Relations
import LuaKernel.Proofs.Prototype.Sources

/-!
# Room for tables

Before its entries are read, room is set aside for a table: for as many entries as its count says, but for
no more than the bytes that remain could hold. In a chunk that loads, no count says more than that, and the
whole tree is bounded by the length of the input.

* `RowsForm.sum_le`, `FunctionForm.treeSize_le`: what stands for an entry, a table or a tree has at least as
  many bytes as their contents need.
* `Reserving`: an input with a log of the room set aside, which a failure leaves as it is. `Records x r L`: on
  every input `x` answers as the reader `r` and sets aside no room that the input could not fill, and if they
  answer `a`, the tables it has logged are `L a` and their counts are covered.
* `entryRelation_records`: entries set aside no room. `records_table`: the entries of a table are read after
  its room is logged, and cover it.
* `decode_reserves`: loading with the log is loading, no count sets aside more room than the input could fill,
  and in a chunk that loads each table of each function is in the log with its count covered.
-/

namespace LuaKernel.Chunk

/-! ## Least sizes -/

def constantSize : Value → ℕ
  | .string s => 1 + s.length
  | _ => 1

theorem one_le_constantSize (k : Value) : 1 ≤ constantSize k := by
  unfold constantSize
  split <;> omega

/-- The least number of bytes of a function, without the functions inside it. -/
def bodySize (f : FunctionBody) : ℕ :=
  40 + 4 * f.code.length + (f.constants.map constantSize).sum + 2 * f.upvalues.length + 4 * f.lines.length +
    (f.locals.map fun v => 9 + v.name.length).sum + (f.upvalueNames.map fun s => 1 + s.length).sum

/-- The least number of bytes of a tree. -/
def treeSize (p : Prototype) : ℕ := (p.nodes.map fun q => bodySize q.body).sum

theorem treeSize_mk (f : FunctionBody) (children : List Prototype) :
    treeSize (.mk f children) = bodySize f + (children.map treeSize).sum := by
  rw [treeSize, Prototype.nodes, Prototype.nodesAll_eq, List.map_cons, List.sum_cons, List.map_flatMap,
    List.flatMap_def, List.sum_flatten, List.map_map]
  rfl

theorem one_le_treeSize (p : Prototype) : 1 ≤ treeSize p := by
  obtain ⟨f, children⟩ := p
  rw [treeSize_mk, bodySize]
  omega

section
variable {u : Bytes}

theorem StringForm.length_le {written : Option Bytes} (h : StringForm written u) :
    1 + (written.getD []).length ≤ u.length := by
  cases h with
  | absent => exact le_rfl
  | short => simp [Nat.add_comm]
  | long =>
    simp only [Option.getD_some, List.length_cons, List.length_append]
    omega

theorem TextForm.length_le {s : Bytes} (h : TextForm s u) : 1 + s.length ≤ u.length := by
  obtain ⟨written, hwritten, rfl⟩ := h
  exact hwritten.length_le

theorem BoolForm.length_eq {b : Bool} (h : BoolForm b u) : u.length = 1 := by
  obtain ⟨x, -, rfl⟩ := h
  rfl

theorem length_word32Bytes (n : UInt32) : (word32Bytes n).length = 4 := Bytes.length_leBytes ..

theorem InstructionForm.length_eq {i : Instruction} (h : InstructionForm i u) : u.length = 4 := by
  rw [h, length_word32Bytes]

theorem LineForm.length_eq {n : UInt32} (h : LineForm n u) : u.length = 4 := by rw [h, length_word32Bytes]

theorem ConstantForm.length_le {k : Value} (h : ConstantForm k u) : constantSize k ≤ u.length := by
  cases h with
  | string htag htext =>
    have := htext.length_le
    simp only [constantSize, List.length_cons]
    omega
  | _ => simp [constantSize]

theorem UpvalueForm.length_eq {v : Upvalue} (h : UpvalueForm v u) : u.length = 2 := by
  obtain ⟨inStack, hbool, rfl⟩ := h
  rw [List.length_append, hbool.length_eq]
  rfl

theorem LocalForm.length_le {v : LocalVariable} (h : LocalForm v u) : 9 + v.name.length ≤ u.length := by
  obtain ⟨name, hname, rfl⟩ := h
  have := hname.length_le
  rw [List.length_append, List.length_append, length_word32Bytes, length_word32Bytes]
  omega

variable {α : Type} {entry : α → Bytes → Prop} {xs : List α}

/-- **Entries have the bytes that their contents need.** -/
theorem RowsForm.sum_le {size : α → ℕ} (h : RowsForm entry xs u)
    (hsize : ∀ x ∈ xs, ∀ v, entry x v → size x ≤ v.length) : (xs.map size).sum ≤ u.length := by
  induction xs generalizing u with
  | nil => exact Nat.zero_le _
  | cons x xs ih =>
    obtain ⟨v, w, hv, hw, rfl⟩ := rowsForm_cons_iff.1 h
    have hx := hsize x (.head _) v hv
    have hxs := ih hw fun y hy => hsize y (.tail _ hy)
    rw [List.map_cons, List.sum_cons, List.length_append]
    omega

theorem RowsForm.mul_le {least : ℕ} (h : RowsForm entry xs u)
    (hleast : ∀ x v, entry x v → least ≤ v.length) : xs.length * least ≤ u.length := by
  have hsum := h.sum_le fun x _ => hleast x
  rwa [List.map_const', List.sum_replicate, smul_eq_mul] at hsum

theorem TableForm.sum_le {size : α → ℕ} (h : TableForm entry xs u)
    (hsize : ∀ x ∈ xs, ∀ v, entry x v → size x ≤ v.length) : 4 + (xs.map size).sum ≤ u.length := by
  obtain ⟨-, rows, hrows, rfl⟩ := h
  have := hrows.sum_le hsize
  rw [List.length_append, Bytes.length_leBytes]
  omega

theorem TableForm.mul_le {least : ℕ} (h : TableForm entry xs u)
    (hleast : ∀ x v, entry x v → least ≤ v.length) : 4 + least * xs.length ≤ u.length := by
  obtain ⟨-, rows, hrows, rfl⟩ := h
  have := hrows.mul_le hleast
  rw [List.length_append, Bytes.length_leBytes, Nat.mul_comm]
  omega

theorem FunctionForm.treeSize_le {p : Prototype} {depth : ℕ} {enclosing : Option Bytes}
    (h : FunctionForm depth enclosing p u) : treeSize p ≤ u.length := by
  induction p generalizing depth enclosing u with
  | mk f children ih =>
    obtain ⟨-, front, inside, back, hfront, hinside, hback, rfl⟩ := functionForm_iff.1 h
    have hchildren := hinside.sum_le fun c hc _ hv => ih c hc hv
    obtain ⟨hwritten, -, hvararg, hcode, hconstants, hupvalues⟩ := hfront
    obtain ⟨hlines, hlocals, hnames⟩ := hback
    have hsource := hwritten.length_le
    have hvararg := hvararg.length_eq
    have hcode := hcode.mul_le fun _ _ hv => hv.length_eq.ge
    have hconstants := hconstants.sum_le fun _ _ _ hv => hv.length_le
    have hupvalues := hupvalues.mul_le fun _ _ hv => hv.length_eq.ge
    have hlines := hlines.mul_le fun _ _ hv => hv.length_eq.ge
    have hlocals := hlocals.sum_le fun _ _ _ hv => hv.length_le
    have hnames := hnames.sum_le fun _ _ _ hv => hv.length_le
    rw [treeSize_mk, bodySize]
    simp only [List.length_append, List.length_singleton, length_word32Bytes]
    omega

end

/-! ## The tables of a tree -/

section
variable (f : FunctionBody)

/-- The tables before the functions inside a function. -/
def frontTables : List (ℕ × ℕ) := [(4, f.code.length), (1, f.constants.length), (2, f.upvalues.length)]

/-- The tables after them. -/
def backTables : List (ℕ × ℕ) := [(4, f.lines.length), (9, f.locals.length), (1, f.upvalueNames.length)]

end

mutual

/-- Every table of every function of a tree, in the order of the chunk: the least number of bytes of an entry,
and how many entries there are. -/
def tables : Prototype → List (ℕ × ℕ)
  | .mk f children => frontTables f ++ ((1, children.length) :: tablesAll children) ++ backTables f

def tablesAll : List Prototype → List (ℕ × ℕ)
  | [] => []
  | p :: ps => tables p ++ tablesAll ps

end

theorem tablesAll_eq (ps : List Prototype) : tablesAll ps = ps.flatMap tables := by
  induction ps with
  | nil => rfl
  | cons p ps ih => rw [tablesAll, ih, List.flatMap_cons]

/-! ## Loading with a log -/

/-- What is known when room is set aside for a table: the least size of an entry, how many entries there are
to be, the bytes that remain, and for how many entries there is room. -/
structure Reservation where
  leastSize : ℕ
  count : ℕ
  remaining : ℕ
  room : ℕ
deriving DecidableEq, Repr

namespace Reservation

/-- There is room for no more entries than what remains could hold, of an input of `n` bytes. -/
def Capped (n : ℕ) (r : Reservation) : Prop :=
  r.room = min r.count (r.remaining / r.leastSize) ∧ r.remaining ≤ n

/-- What remains could hold all entries, and there is room for them. -/
def Covered (r : Reservation) : Prop := r.count * r.leastSize ≤ r.remaining ∧ r.room = r.count

def table (r : Reservation) : ℕ × ℕ := (r.leastSize, r.count)

theorem Capped.mono {n n' : ℕ} {r : Reservation} (h : r.Capped n) (hn : n ≤ n') : r.Capped n' :=
  ⟨h.1, h.2.trans hn⟩

/-- The room for `count` entries of at least `leastSize` bytes, where `remaining` bytes remain. -/
def make (leastSize count remaining : ℕ) : Reservation :=
  { leastSize, count, remaining, room := min count (remaining / leastSize) }

theorem capped_make (leastSize count remaining : ℕ) : (make leastSize count remaining).Capped remaining :=
  ⟨rfl, le_rfl⟩

theorem covered_make {leastSize count remaining : ℕ} (hpos : 0 < leastSize)
    (h : count * leastSize ≤ remaining) : (make leastSize count remaining).Covered :=
  ⟨h, Nat.min_eq_left ((Nat.le_div_iff_mul_le hpos).2 h)⟩

end Reservation

/-- A computation that takes bytes from the input and keeps a log of the room set aside. -/
abbrev Reserving := StateT Cursor (ExceptT DecodeError (StateM (List Reservation)))

namespace Reserving

variable {α β : Type}

/-- The answer with the place where it ends, or the error, and the log. -/
def exec (x : Reserving α) (log : List Reservation) (c : Cursor) :
    Except DecodeError (α × Cursor) × List Reservation :=
  ((x.run c).run.run log).run

def lift (r : Reader α) : Reserving α := fun c => ExceptT.mk (pure (r.run c))

instance : Input Reserving where
  take n := lift (Input.take n)
  truncated n := lift (Input.truncated n)
  sub a b := lift (Input.sub a b)
  reserve leastSize count := do
    let c ← get
    modifyThe (List Reservation) (· ++ [.make leastSize count c.rest.length])

/-- The prototype tree of a chunk, and the room set aside for each table of it. -/
def decode (input : Bytes) : Except DecodeError Prototype × List Reservation :=
  if input.length < headerSize then (.error (.truncated 0 headerSize input.length), [])
  else (exec readChunk [] ⟨0, input⟩).map (Except.map Prod.fst) id

/-! ## Recording -/

theorem exec_bind_of_ok {x : Reserving α} {log log' : List Reservation} {c c' : Cursor} {a : α}
    (h : x.exec log c = (.ok (a, c'), log')) (f : α → Reserving β) :
    (x >>= f).exec log c = (f a).exec log' c' := by
  simp only [exec, StateT.run_bind, ExceptT.run_bind] at *
  rw [Id.run_bind, h]

theorem exec_bind_of_error {x : Reserving α} {log log' : List Reservation} {c : Cursor} {e : DecodeError}
    (h : x.exec log c = (.error e, log')) (f : α → Reserving β) :
    (x >>= f).exec log c = (.error e, log') := by
  simp only [exec, StateT.run_bind, ExceptT.run_bind] at *
  rw [Id.run_bind, h]
  rfl

/-- The same answer, with the tables that belong to it added to the log and covered, or the same error. In
either case the room that was added is capped. -/
inductive Logged (log : List Reservation) (c : Cursor) (L : α → List (ℕ × ℕ) → Prop) :
    Except DecodeError (α × Cursor) × List Reservation → Except DecodeError (α × Cursor) → Prop
  | ok {a : α} {c' : Cursor} {added : List Reservation} (htables : L a (added.map Reservation.table))
      (hcovered : ∀ r ∈ added, r.Covered) (hcapped : ∀ r ∈ added, r.Capped c.rest.length)
      (hrest : c'.rest.length ≤ c.rest.length) : Logged log c L (.ok (a, c'), log ++ added) (.ok (a, c'))
  | error {e : DecodeError} {added : List Reservation} (hcapped : ∀ r ∈ added, r.Capped c.rest.length) :
      Logged log c L (.error e, log ++ added) (.error e)

section
variable {log : List Reservation} {c c' : Cursor} {L : α → List (ℕ × ℕ) → Prop}

theorem Logged.unchanged {a : α} (h : L a []) (hrest : c'.rest.length ≤ c.rest.length) :
    Logged log c L (.ok (a, c'), log) (.ok (a, c')) := by
  have hnone : Logged log c L (.ok (a, c'), log ++ []) (.ok (a, c')) := .ok h nofun nofun hrest
  rwa [List.append_nil] at hnone

theorem Logged.failed (e : DecodeError) : Logged log c L (.error e, log) (.error e) := by
  have hnone : Logged log c L (.error e, log ++ []) (.error e) := .error nofun
  rwa [List.append_nil] at hnone

end

/-- With any log, on any input, `x` answers as `r` does and logs the tables of its answer. -/
def Records (x : Reserving α) (r : Reader α) (L : α → List (ℕ × ℕ) → Prop) : Prop :=
  ∀ log c, Logged log c L (x.exec log c) (r.run c)

namespace Records

variable {x : Reserving α} {r : Reader α} {L L' : α → List (ℕ × ℕ) → Prop}

theorem mono (h : Records x r L) (hL : ∀ a t, L a t → L' a t) : Records x r L' := by
  intro log c
  have hlogged := h log c
  generalize x.exec log c = out at hlogged ⊢
  generalize r.run c = out' at hlogged ⊢
  cases hlogged with
  | ok htables hcovered hcapped hrest => exact .ok (hL _ _ htables) hcovered hcapped hrest
  | error hcapped => exact .error hcapped

theorem pure (a : α) : Records (Pure.pure a) (Pure.pure a) (fun b t => b = a ∧ t = []) :=
  fun _ _ => .unchanged ⟨rfl, rfl⟩ le_rfl

theorem throw (e : DecodeError) : Records (throw e : Reserving α) (throw e) (fun _ _ => False) :=
  fun _ _ => .failed e

/-- What reads no table logs none. -/
theorem lift {form : α → Bytes → Prop} (hr : Reader.Accepts r form) :
    Records (Reserving.lift r) r (fun _ t => t = []) := by
  intro log c
  show Logged log c _ (r.run c, log) (r.run c)
  cases hrun : r.run c with
  | error e => exact .failed e
  | ok out =>
    obtain ⟨u, -, hrest, -⟩ := hr.sound hrun
    refine .unchanged rfl ?_
    rw [hrest, List.length_append]
    exact Nat.le_add_left ..

/-- **One thing after another** logs the tables of one after those of the other. -/
theorem bind {f : α → Reserving β} {g : α → Reader β} {M : α → β → List (ℕ × ℕ) → Prop}
    (h : Records x r L) (hf : ∀ a, Records (f a) (g a) (M a)) :
    Records (x >>= f) (r >>= g) (fun b t => ∃ a u v, L a u ∧ M a b v ∧ t = u ++ v) := by
  intro log c
  have hlogged := h log c
  generalize hx : x.exec log c = out at hlogged
  generalize hr : r.run c = out' at hlogged
  cases hlogged with
  | error hcapped =>
    rw [exec_bind_of_error hx, Reader.run_bind_of_error hr]
    exact .error hcapped
  | @ok a c' added htables hcovered hcapped hrest =>
    rw [exec_bind_of_ok hx, Reader.run_bind_of_ok hr]
    have hlogged := hf a (log ++ added) c'
    generalize (f a).exec (log ++ added) c' = out at hlogged ⊢
    generalize (g a).run c' = out' at hlogged ⊢
    cases hlogged with
    | @error e added' hcapped' =>
      rw [List.append_assoc]
      exact .error (List.forall_mem_append.2 ⟨hcapped, fun r hr => (hcapped' r hr).mono hrest⟩)
    | @ok b c'' added' htables' hcovered' hcapped' hrest' =>
      rw [List.append_assoc]
      exact .ok ⟨a, _, _, htables, htables', List.map_append⟩
        (List.forall_mem_append.2 ⟨hcovered, hcovered'⟩)
        (List.forall_mem_append.2 ⟨hcapped, fun r hr => (hcapped' r hr).mono hrest⟩) (hrest'.trans hrest)

theorem map (h : Records x r L) (g : α → β) :
    Records (x >>= fun a => Pure.pure (g a)) (r >>= fun a => Pure.pure (g a))
      (fun b t => ∃ a, L a t ∧ b = g a) := by
  refine (h.bind fun a => pure (g a)).mono fun b t ht => ?_
  obtain ⟨a, u, v, hu, ⟨rfl, rfl⟩, rfl⟩ := ht
  exact ⟨a, by rwa [List.append_nil], rfl⟩

/-- Something that reads no table may come first. -/
theorem after {ρ : Type} {y : Reserving ρ} {q : Reader ρ} (hy : Records y q fun _ t => t = [])
    {f : ρ → Reserving α} {g : ρ → Reader α} (h : ∀ a, Records (f a) (g a) L) :
    Records (y >>= f) (q >>= g) L := by
  refine (hy.bind h).mono fun b t ht => ?_
  obtain ⟨a, u, v, rfl, hv, rfl⟩ := ht
  exact hv

end Records

/-- **Entries set aside no room.** -/
theorem entryRelation_records :
    EntryRelation (m := Reserving) (n := Reader) fun _ x r => Records x r fun _ t => t = [] where
  pure a := (Records.pure a).mono fun _ _ h => h.2
  bind h hf := .after h hf
  take k := .lift (Reader.accepts_take k)
  truncated := .lift (.truncated _)
  sub _ := .lift (.pure _)
  unknownTag tag := (Records.throw (.unknownTag tag)).mono fun _ _ h => h.elim

/-! ## Tables -/

section
variable {x : Reserving α} {r : Reader α} {inside : α → List (ℕ × ℕ)}

theorem records_entries (h : Records x r fun a t => t = inside a) :
    ∀ n, Records (Input.entries x n) (Input.entries r n)
      (fun xs t => xs.length = n ∧ t = xs.flatMap inside)
  | 0 => (Records.pure []).mono fun xs t ht => by
    obtain ⟨rfl, rfl⟩ := ht
    exact ⟨rfl, rfl⟩
  | n + 1 => (h.bind fun a => (records_entries h n).map (a :: ·)).mono fun xs t ht => by
    obtain ⟨a, _, _, rfl, ⟨xs, ⟨rfl, rfl⟩, rfl⟩, rfl⟩ := ht
    exact ⟨rfl, rfl⟩

/-- **A table is covered by its entries**, which stand in what remains after the count. -/
theorem records_table {leastSize : ℕ} (hpos : 0 < leastSize) {form : α → Bytes → Prop}
    (h : Records x r fun a t => t = inside a) (hr : Reader.Accepts r form)
    (hsize : ∀ a u, form a u → leastSize ≤ u.length) :
    Records (Input.table leastSize x) (Input.table leastSize r)
      (fun xs t => t = (leastSize, xs.length) :: xs.flatMap inside) := by
  refine .after entryRelation_records.word32 fun n => ?_
  intro log c
  have hentries := records_entries h n.toNat (log ++ [.make leastSize n.toNat c.rest.length]) c
  -- The room is logged before the entries are read, and what they are read from is what remains here.
  show Logged log c _ (exec (Input.entries x n.toNat) (log ++ [.make leastSize n.toNat c.rest.length]) c)
    ((Input.entries r n.toNat).run c)
  have hcap : (Reservation.make leastSize n.toNat c.rest.length).Capped c.rest.length :=
    Reservation.capped_make ..
  generalize exec (Input.entries x n.toNat) _ c = out at hentries ⊢
  generalize hrun : (Input.entries r n.toNat).run c = out' at hentries ⊢
  cases hentries with
  | error hcapped =>
    rw [List.append_assoc]
    exact .error (List.forall_mem_cons.2 ⟨hcap, hcapped⟩)
  | @ok xs c' added htables hcovered hcapped hrest =>
    obtain ⟨u, ⟨hlength, hrows⟩, hsplit, -⟩ := (Reader.accepts_entries hr n.toNat).sound hrun
    have hcover : (Reservation.make leastSize n.toNat c.rest.length).Covered := by
      have hrows := hrows.mul_le hsize
      apply Reservation.covered_make hpos
      rw [hsplit, List.length_append, ← hlength]
      exact hrows.trans (Nat.le_add_right ..)
    rw [List.append_assoc]
    refine .ok ?_ (List.forall_mem_cons.2 ⟨hcover, hcovered⟩) (List.forall_mem_cons.2 ⟨hcap, hcapped⟩) hrest
    rw [List.map_append, htables.2, htables.1]
    rfl

/-- A table whose entries have no tables in them. -/
theorem records_leaves {leastSize : ℕ} (hpos : 0 < leastSize) {form : α → Bytes → Prop}
    (h : Records x r fun _ t => t = []) (hr : Reader.Accepts r form)
    (hsize : ∀ a u, form a u → leastSize ≤ u.length) :
    Records (Input.table leastSize x) (Input.table leastSize r) (fun xs t => t = [(leastSize, xs.length)]) := by
  have hleaf : Records x r fun a t => t = (fun _ => []) a := h
  refine (records_table hpos hleaf hr hsize).mono fun xs t ht => ?_
  rw [ht, List.flatMap_eq_nil_iff.2 fun _ _ => rfl]

end

/-! ## Functions and chunks -/

theorem records_readFront (enclosing : Option Bytes) :
    Records (readFront enclosing) (readFront enclosing) (fun f t => t = frontTables f) := by
  have hentry := entryRelation_records
  have hcode := records_leaves (by decide : 0 < 4) (hentry.map hentry.word32 Instruction.mk)
    (Reader.accepts_word32.map Instruction.mk) fun i u hu => by
      obtain ⟨n, rfl, -⟩ := hu
      exact (length_word32Bytes n).ge
  have hconstants := records_leaves (by decide : 0 < 1) hentry.readConstant accepts_readConstant fun _ _ hu =>
    (one_le_constantSize _).trans hu.length_le
  have hupvalues := records_leaves (by decide : 0 < 2) hentry.readUpvalue accepts_readUpvalue fun _ _ hu =>
    hu.length_eq.ge
  refine .after hentry.string? fun _ => .after hentry.word32 fun _ => .after hentry.word32 fun _ =>
    .after hentry.byte fun _ => .after hentry.bool fun _ => .after hentry.byte fun _ => ?_
  refine (hcode.bind fun code => hconstants.bind fun constants => hupvalues.map _).mono fun f t ht => ?_
  obtain ⟨code, _, _, rfl, ⟨constants, _, _, rfl, ⟨upvalues, rfl, rfl⟩, rfl⟩, rfl⟩ := ht
  rfl

theorem records_readBack (f : FunctionBody) : Records (readBack f) (readBack f)
    (fun g t => t = backTables g ∧ frontTables g = frontTables f) := by
  have hentry := entryRelation_records
  have hlines := records_leaves (by decide : 0 < 4) hentry.word32 Reader.accepts_word32 fun n u hu => by
    rw [hu, length_word32Bytes]
  have hlocals := records_leaves (by decide : 0 < 9) hentry.readLocal accepts_readLocal fun _ _ hu =>
    (Nat.le_add_right 9 _).trans hu.length_le
  have hnames := records_leaves (by decide : 0 < 1) hentry.string Reader.accepts_string fun _ _ hu =>
    (Nat.le_add_right 1 _).trans hu.length_le
  refine (hlines.bind fun lines => hlocals.bind fun locals => hnames.map _).mono fun g t ht => ?_
  obtain ⟨lines, _, _, rfl, ⟨locals, _, _, rfl, ⟨names, rfl, rfl⟩, rfl⟩, rfl⟩ := ht
  exact ⟨rfl, rfl⟩

theorem records_readFunction : ∀ {levels depth : ℕ} (_ : levels + depth = 201) (enclosing : Option Bytes),
    Records (readFunction levels enclosing) (readFunction levels enclosing) (fun p t => t = tables p)
  | 0, _, _, _ => (Records.throw _).mono fun _ _ h => h.elim
  | levels + 1, depth, hdepth, enclosing => by
    have hlevels : levels + (depth + 1) = 201 := by omega
    have hinside (source : Option Bytes) := records_table (by decide : 0 < 1)
      (records_readFunction hlevels source) (accepts_readFunction hlevels source) fun p u hu =>
      (one_le_treeSize p).trans hu.treeSize_le
    refine ((records_readFront enclosing).bind fun front => (hinside front.source).bind fun children =>
      (records_readBack front).map fun body => Prototype.mk body children).mono fun p t ht => ?_
    obtain ⟨front, _, _, rfl, ⟨children, _, _, rfl, ⟨body, ⟨rfl, hfront⟩, rfl⟩, rfl⟩, rfl⟩ := ht
    rw [tables, tablesAll_eq, hfront, List.append_assoc]

theorem records_readChunk : Records readChunk readChunk (fun p t => t = tables p) := by
  have hfield (field : HeaderField) : Records (throw (.headerMismatch field) : Reserving Unit)
      (throw (.headerMismatch field)) fun _ t => t = [] := (Records.throw _).mono fun _ _ h => h.elim
  exact .after (entryRelation_records.readHeader hfield headerFields) fun _ =>
    .after entryRelation_records.byte fun _ => records_readFunction (Nat.add_zero 201) none

/-- Loading with the log, on an input that is long enough for a header. -/
theorem logged_decode {d : Bytes} (h : headerSize ≤ d.length) :
    ∃ out out', Logged [] ⟨0, d⟩ (fun p t => t = tables p) out out' ∧
      decode d = (out.1.map Prod.fst, out.2) ∧ Chunk.decode d = out'.map Prod.fst := by
  have hlength : ¬d.length < headerSize := Nat.not_lt.2 h
  exact ⟨_, _, records_readChunk [] ⟨0, d⟩, if_neg hlength, if_neg hlength⟩

end Reserving

theorem treeSize_le_of_decode {d : Bytes} {p : Prototype} (h : decode d = .ok p) :
    34 + treeSize p ≤ d.length := by
  obtain ⟨b, u, rest, rfl, hu⟩ := form_of_decode h
  have hsize := hu.treeSize_le
  have hheader : header.length = 33 := length_header
  simp only [List.length_append, List.length_singleton, hheader]
  omega

/-- **No count inflates the result.** Loading with a log of the room set aside is loading, and whatever a
count says, there is room for no more entries than what remains could hold. In a chunk that loads every table
is in the log, what remains could hold all its entries, and the input has the bytes its contents need. -/
theorem decode_reserves (d : Bytes) :
    (Reserving.decode d).1 = decode d ∧
    (∀ r ∈ (Reserving.decode d).2,
      r.room = min r.count (r.remaining / r.leastSize) ∧ r.remaining ≤ d.length) ∧
    ∀ p, decode d = .ok p →
      (Reserving.decode d).2.map Reservation.table = tables p ∧
      (∀ r ∈ (Reserving.decode d).2, r.count * r.leastSize ≤ r.remaining ∧ r.room = r.count) ∧
      34 + (p.nodes.map fun q => bodySize q.body).sum ≤ d.length := by
  by_cases hlength : d.length < headerSize
  · rw [Reserving.decode, decode, if_pos hlength, if_pos hlength]
    refine ⟨rfl, fun r hr => ?_, fun p hp => ?_⟩
    · cases hr
    · cases hp
  obtain ⟨out, out', hlogged, hlog, hd⟩ := Reserving.logged_decode (Nat.not_lt.1 hlength)
  rw [hlog]
  cases hlogged with
  | error hcapped =>
    refine ⟨hd.symm, hcapped, fun p hp => ?_⟩
    cases hd.symm.trans hp
  | @ok p c added htables hcovered hcapped hrest =>
    refine ⟨hd.symm, hcapped, fun q hq => ?_⟩
    obtain rfl : p = q := Except.ok.inj (hd.symm.trans hq)
    exact ⟨htables, hcovered, treeSize_le_of_decode hd⟩

/-- A function with one instruction, the constant `hi` and an empty function inside it; and a function whose
count says two hundred instructions, with eleven bytes behind it. -/
theorem decode_reserves_nested :
    let zeros := List.replicate 4 (0 : UInt8)
    let front : Bytes := [0] ++ zeros ++ zeros ++ [0, 0, 2]
    let inside : Bytes := front ++ zeros ++ zeros ++ zeros ++ zeros ++ zeros ++ zeros ++ zeros
    let d : Bytes := header ++ [0] ++ front ++ [1, 0, 0, 0, 0x26, 0, 0, 0] ++
      [1, 0, 0, 0, 0x04, 3, 0x68, 0x69] ++ zeros ++ [1, 0, 0, 0] ++ inside ++ zeros ++ zeros ++ zeros
    let forged : Bytes := header ++ [0] ++ front ++ [200, 0, 0, 0] ++ List.replicate 11 7
    (∃ p, decode d = .ok p ∧ p.nodes.map (fun q => bodySize q.body) = [47, 40] ∧
      (Reserving.decode d).2.map Reservation.table = tables p ∧
      (∀ r ∈ (Reserving.decode d).2, r.count * r.leastSize ≤ r.remaining ∧ r.room = r.count) ∧
      34 + (p.nodes.map fun q => bodySize q.body).sum ≤ d.length) ∧
    ∀ r ∈ (Reserving.decode forged).2, r.count = 200 ∧ r.remaining = 11 ∧ r.leastSize = 4 ∧ r.room = 2 := by
  intro zeros front inside d forged
  have hsizes : (decode d).toOption.map (·.nodes.map fun q => bodySize q.body) = some [47, 40] := by
    decide +kernel
  refine ⟨?_, fun r hr => ?_⟩
  · cases hd : decode d with
    | error e => rw [hd] at hsizes; cases hsizes
    | ok p =>
      rw [hd] at hsizes
      exact ⟨p, rfl, Option.some.inj hsizes, (decode_reserves d).2.2 p hd⟩
  · have hlog : (Reserving.decode forged).2 = [⟨4, 200, 11, 2⟩] := by decide +kernel
    obtain ⟨hroom, -⟩ := (decode_reserves forged).2.1 r hr
    rw [hlog] at hr
    obtain rfl := List.mem_singleton.1 hr
    exact ⟨rfl, rfl, rfl, hroom⟩

end LuaKernel.Chunk
