import LuaKernel.Chunk.Format

/-!
# The grammar of chunks

What may stand in a chunk, said in literal bytes and without a reader or a writer.
`…Form x u`: the bytes `u` stand for `x`. Most things have several forms: a string has a short and a long
one, a string constant either tag, true any nonzero byte, and an empty string may be left out.

* `headerBytes`: the header, which `header_eq` says is the one that is read and written.
* `StringForm`, `TextForm`, `ConstantForm`, `UpvalueForm`, `LocalForm`: the entries of the tables.
* `RowsForm`, `TableForm`: entries one after another, and behind their count.
* `FunctionForm depth enclosing p u`: `u` stands for the tree `p`, `depth` levels below the main
  function and inside one with the source `enclosing`. `functionForm_iff` is the rule of the tree.
-/

namespace LuaKernel.Chunk

/-- The header: `ESC Lua`, version 5.3 and format 0, the bytes that a transfer as text would change, five
sizes, `0x5678` and 370.5. -/
def headerBytes : Bytes :=
  [0x1b, 0x4c, 0x75, 0x61, 0x53, 0x00, 0x19, 0x93, 0x0d, 0x0a, 0x1a, 0x0a, 4, 8, 4, 8, 8,
   0x78, 0x56, 0, 0, 0, 0, 0, 0, 0, 0, 0, 0, 0, 0x28, 0x77, 0x40]

theorem header_eq : header = headerBytes := rfl

/-! ## Entries -/

/-- A string that may be absent. A stored size counts one byte more than the string has. -/
inductive StringForm : Option Bytes → Bytes → Prop
  | absent : StringForm none [0]
  | short {s : Bytes} {size : UInt8} (hpos : 1 ≤ size.toNat) (hmark : size.toNat ≤ 254)
      (hlen : s.length = size.toNat - 1) : StringForm (some s) (size :: s)
  | long {s : Bytes} {size : UInt64} (hpos : 1 ≤ size.toNat) (hlen : s.length = size.toNat - 1) :
      StringForm (some s) (0xff :: (word64Bytes size ++ s))

/-- A string, which is empty if it is absent. -/
def TextForm (s : Bytes) (u : Bytes) : Prop := ∃ written, StringForm written u ∧ s = written.getD []

/-- A truth value: no by zero and yes by any other byte. -/
def BoolForm (b : Bool) (u : Bytes) : Prop := ∃ x : UInt8, b = (x != 0) ∧ u = [x]

def InstructionForm (i : Instruction) (u : Bytes) : Prop := u = word32Bytes i.word

def LineForm (n : UInt32) (u : Bytes) : Prop := u = word32Bytes n

/-- A constant: its tag and its content. -/
inductive ConstantForm : Value → Bytes → Prop
  | nil : ConstantForm .nil [0x00]
  | boolean {b : Bool} {u : Bytes} (h : BoolForm b u) : ConstantForm (.boolean b) (0x01 :: u)
  | integer (n : Int64) : ConstantForm (.integer n) (0x13 :: word64Bytes n.toUInt64)
  | float (x : Binary64) : ConstantForm (.float x) (0x03 :: word64Bytes x.bits)
  | string {tag : UInt8} {s u : Bytes} (htag : tag = 0x04 ∨ tag = 0x14)
      (h : TextForm s u) : ConstantForm (.string s) (tag :: u)

def UpvalueForm (v : Upvalue) (u : Bytes) : Prop :=
  ∃ inStack, BoolForm v.inStack inStack ∧ u = inStack ++ [v.index]

def LocalForm (v : LocalVariable) (u : Bytes) : Prop :=
  ∃ name, TextForm v.name name ∧ u = name ++ word32Bytes v.startPc ++ word32Bytes v.endPc

/-! ## Tables -/

section
variable {α : Type}

/-- Entries one after another. The witness pairs each entry with the bytes that stand for it. -/
def RowsForm (entry : α → Bytes → Prop) (xs : List α) (u : Bytes) : Prop :=
  ∃ rows : List (α × Bytes), (∀ row ∈ rows, entry row.1 row.2) ∧ rows.map Prod.fst = xs ∧
    rows.flatMap Prod.snd = u

/-- A table: the number of its entries in four bytes, and the entries. -/
def TableForm (entry : α → Bytes → Prop) (xs : List α) (u : Bytes) : Prop :=
  xs.length < UInt32.size ∧ ∃ rows, RowsForm entry xs rows ∧ u = Bytes.leBytes 4 xs.length ++ rows

variable {entry : α → Bytes → Prop}

theorem rowsForm_nil_iff {u : Bytes} : RowsForm entry [] u ↔ u = [] := by
  refine ⟨fun h => ?_, fun h => ?_⟩
  · obtain ⟨rows, -, hx, rfl⟩ := h
    rw [List.map_eq_nil_iff.1 hx]; rfl
  · subst h
    exact ⟨[], by simp, rfl, rfl⟩

theorem rowsForm_cons_iff {x : α} {xs : List α} {w : Bytes} :
    RowsForm entry (x :: xs) w ↔ ∃ u v, entry x u ∧ RowsForm entry xs v ∧ w = u ++ v := by
  refine ⟨fun h => ?_, fun h => ?_⟩
  · obtain ⟨rows, hrows, hx, rfl⟩ := h
    obtain ⟨row, rows, rfl, rfl, rfl⟩ := List.map_eq_cons_iff.1 hx
    exact ⟨row.2, rows.flatMap Prod.snd, hrows row (.head _),
      ⟨rows, fun r hr => hrows r (.tail _ hr), rfl, rfl⟩, rfl⟩
  · obtain ⟨u, v, hx, ⟨rows, hrows, rfl, rfl⟩, rfl⟩ := h
    refine ⟨(x, u) :: rows, fun r hr => ?_, rfl, rfl⟩
    rcases List.mem_cons.1 hr with rfl | hr
    · exact hx
    · exact hrows r hr

end

/-! ## Functions -/

/-- What stands before the functions inside a function. An absent source is that of the enclosing one. -/
inductive FrontForm (enclosing : Option Bytes) (f : FunctionBody) : Bytes → Prop
  | mk {written : Option Bytes} {source vararg code constants upvalues : Bytes}
      (hwritten : StringForm written source) (hsource : f.source = written.or enclosing)
      (hvararg : BoolForm f.isVararg vararg) (hcode : TableForm InstructionForm f.code code)
      (hconstants : TableForm ConstantForm f.constants constants)
      (hupvalues : TableForm UpvalueForm f.upvalues upvalues) :
      FrontForm enclosing f
        (source ++ word32Bytes f.lineDefined ++ word32Bytes f.lastLineDefined ++ [f.paramCount] ++
          vararg ++ [f.maxStackSize] ++ code ++ constants ++ upvalues)

/-- What stands after the functions inside a function. -/
inductive BackForm (f : FunctionBody) : Bytes → Prop
  | mk {lines locals names : Bytes} (hlines : TableForm LineForm f.lines lines)
      (hlocals : TableForm LocalForm f.locals locals)
      (hnames : TableForm TextForm f.upvalueNames names) : BackForm f (lines ++ locals ++ names)

/-- A function at a depth and inside one with the source `enclosing`. The rows of `inside` are the
functions inside it, one level deeper and inside its own source. -/
inductive FunctionForm : (depth : Nat) → (enclosing : Option Bytes) → Prototype → Bytes → Prop
  | mk {depth : Nat} {enclosing : Option Bytes} {f : FunctionBody} {front back : Bytes}
      {inside : List (Prototype × Bytes)} (hdepth : depth ≤ 200)
      (hfront : FrontForm enclosing f front) (hcount : inside.length < UInt32.size)
      (hinside : ∀ row ∈ inside, FunctionForm (depth + 1) f.source row.1 row.2)
      (hback : BackForm f back) :
      FunctionForm depth enclosing (.mk f (inside.map Prod.fst))
        (front ++ (Bytes.leBytes 4 inside.length ++ inside.flatMap Prod.snd) ++ back)

/-- **The rule of the tree**: the functions inside a function stand in a table of their own. -/
theorem functionForm_iff {depth : Nat} {enclosing : Option Bytes} {f : FunctionBody}
    {children : List Prototype} {u : Bytes} :
    FunctionForm depth enclosing (.mk f children) u ↔
      depth ≤ 200 ∧ ∃ front inside back, FrontForm enclosing f front ∧
        TableForm (FunctionForm (depth + 1) f.source) children inside ∧ BackForm f back ∧
        u = front ++ inside ++ back := by
  refine ⟨fun h => ?_, fun h => ?_⟩
  · cases h with
    | mk hdepth hfront hcount hinside hback =>
      refine ⟨hdepth, _, _, _, hfront, ⟨by rwa [List.length_map], _, ⟨_, hinside, rfl, rfl⟩, rfl⟩,
        hback, ?_⟩
      rw [List.length_map]
  · obtain ⟨hdepth, front, inside, back, hfront, hinside, hback, rfl⟩ := h
    obtain ⟨hcount, _, ⟨rows, hrows, rfl, rfl⟩, rfl⟩ := hinside
    rw [List.length_map] at hcount ⊢
    exact .mk hdepth hfront hcount hrows hback

end LuaKernel.Chunk
