import LuaKernel.Chunk.Decode

/-!
# What the steps of loading keep

Loading is the same on every input, so a relation between the steps of two inputs is one between all that is
read with them. `EntryRelation R`: sequences and the steps that entries are read with keep `R`.
`FunctionRelation R`: so do the steps that only functions take, which set aside room and refuse to nest too
deep. A property of computations on one input is a relation that looks at one of its sides.

* `EntryRelation.string?`, `EntryRelation.readConstant`, `EntryRelation.readLocal`: entries.
* `FunctionRelation.table`, `FunctionRelation.readFunction`: by induction on the count and on the levels.
* `FunctionRelation.readChunk`: if refusing a part of the header keeps `R` too, so does loading.
-/

namespace LuaKernel.Chunk

variable {m n : Type → Type} {R : ∀ ⦃α : Type⦄, m α → n α → Prop}

theorem rel_ite {α : Type} {c : Prop} [Decidable c] {x x' : m α} {y y' : n α} (h : c → R x y)
    (h' : ¬c → R x' y') : R (if c then x else x') (if c then y else y') := by
  split
  · exact h ‹_›
  · exact h' ‹_›

variable [Monad m] [Input m] [MonadExcept DecodeError m] [Monad n] [Input n] [MonadExcept DecodeError n]

/-- The relation is kept by all that reading an entry does. Lengths are only subtracted from no smaller
ones, and bytes are only reported missing where no input could hold so many. -/
structure EntryRelation (R : ∀ ⦃α : Type⦄, m α → n α → Prop) : Prop where
  pure {α : Type} (a : α) : R (Pure.pure a) (Pure.pure a)
  bind {α β : Type} {x : m α} {y : n α} {f : α → m β} {g : α → n β} :
    R x y → (∀ a, R (f a) (g a)) → R (x >>= f) (y >>= g)
  take (k : Nat) : R (Input.take k) (Input.take k)
  truncated {α : Type} : R (Input.truncated (UInt64.size - 1) : m α) (Input.truncated (UInt64.size - 1))
  sub {a b : Nat} : b ≤ a → R (Input.sub a b) (Input.sub a b)
  unknownTag {α : Type} (tag : UInt8) : R (throw (.unknownTag tag) : m α) (throw (.unknownTag tag))

/-- The relation is kept by all that reading a function does. -/
structure FunctionRelation (R : ∀ ⦃α : Type⦄, m α → n α → Prop) : Prop extends EntryRelation R where
  reserve (leastSize count : Nat) : R (Input.reserve leastSize count) (Input.reserve leastSize count)
  nestedTooDeep {α : Type} (limit : Nat) :
    R (throw (.nestedTooDeep limit) : m α) (throw (.nestedTooDeep limit))

namespace EntryRelation

theorem map {α β : Type} {x : m α} {y : n α} (h : EntryRelation R) (hx : R x y) (g : α → β) :
    R (x >>= fun a => Pure.pure (g a)) (y >>= fun a => Pure.pure (g a)) :=
  h.bind hx fun a => h.pure (g a)

variable (h : EntryRelation R)
include h

theorem byte : R (Input.byte : m UInt8) Input.byte := h.map (h.take 1) _

theorem bool : R (Input.bool : m Bool) Input.bool := h.map h.byte _

theorem word32 : R (Input.word32 : m UInt32) Input.word32 := h.map (h.take 4) _

theorem word64 : R (Input.word64 : m UInt64) Input.word64 := h.map (h.take 8) _

/-- One is subtracted from sizes that are not zero. -/
theorem string? : R (Input.string? : m (Option Bytes)) Input.string? := by
  have hrest {size : Nat} (hsize : size ≠ 0) :=
    h.bind (h.sub (Nat.pos_of_ne_zero hsize)) fun length => h.map (h.take length) some
  refine h.bind h.byte fun size => rel_ite (fun _ => h.pure none) fun hsize => rel_ite (fun _ => ?_) fun _ => ?_
  · refine h.bind h.word64 fun size => rel_ite (fun _ => h.truncated) fun hsize => hrest ?_
    rwa [← UInt64.toNat_inj] at hsize
  · apply hrest
    rwa [← UInt8.toNat_inj] at hsize

theorem string : R (Input.string : m Bytes) Input.string := h.map h.string? _

theorem entries {α : Type} {x : m α} {y : n α} (hx : R x y) :
    ∀ k, R (Input.entries x k) (Input.entries y k)
  | 0 => h.pure []
  | k + 1 => h.bind hx fun a => h.map (entries hx k) (a :: ·)

theorem readConstant : R (readConstant : m Value) readConstant := by
  refine h.bind h.byte fun tag => rel_ite (fun _ => h.pure _) fun _ => rel_ite (fun _ => ?_) fun _ =>
    rel_ite (fun _ => ?_) fun _ => rel_ite (fun _ => ?_) fun _ => rel_ite (fun _ => ?_) fun _ =>
    h.unknownTag tag
  · exact h.map h.bool _
  · exact h.map h.word64 _
  · exact h.map h.word64 _
  · exact h.map h.string _

theorem readUpvalue : R (readUpvalue : m Upvalue) readUpvalue :=
  h.bind h.bool fun _ => h.map h.byte _

theorem readLocal : R (readLocal : m LocalVariable) readLocal :=
  h.bind h.string fun _ => h.bind h.word32 fun _ => h.map h.word32 _

theorem readHeader
    (hfield : ∀ field, R (throw (.headerMismatch field) : m Unit) (throw (.headerMismatch field))) :
    ∀ fields : List (HeaderField × Bytes), R (readHeader fields : m Unit) (readHeader fields)
  | [] => h.pure ()
  | (field, expected) :: fields => h.bind (h.take expected.length) fun _ =>
    rel_ite (fun _ => readHeader hfield fields) fun _ => hfield field

end EntryRelation

namespace FunctionRelation

variable (h : FunctionRelation R)
include h

theorem table {α : Type} {x : m α} {y : n α} (leastSize : Nat) (hx : R x y) :
    R (Input.table leastSize x) (Input.table leastSize y) :=
  h.bind h.word32 fun k => h.bind (h.reserve leastSize k.toNat) fun _ => h.entries hx k.toNat

theorem readFront (enclosing : Option Bytes) :
    R (readFront enclosing : m FunctionBody) (readFront enclosing) := by
  refine h.bind h.string? fun _ => h.bind h.word32 fun _ => h.bind h.word32 fun _ =>
    h.bind h.byte fun _ => h.bind h.bool fun _ => h.bind h.byte fun _ => ?_
  refine h.bind (h.table 4 (h.map h.word32 _)) fun _ => ?_
  refine h.bind (h.table 1 h.readConstant) fun _ => ?_
  exact h.map (h.table 2 h.readUpvalue) _

theorem readBack (f : FunctionBody) : R (readBack f : m FunctionBody) (readBack f) := by
  refine h.bind (h.table 4 h.word32) fun _ => ?_
  refine h.bind (h.table 9 h.readLocal) fun _ => ?_
  exact h.map (h.table 1 h.string) _

theorem readFunction : ∀ (levels : Nat) (enclosing : Option Bytes),
    R (readFunction levels enclosing : m Prototype) (readFunction levels enclosing)
  | 0, _ => h.nestedTooDeep nestingLimit
  | levels + 1, enclosing => by
    refine h.bind (h.readFront enclosing) fun front => ?_
    refine h.bind (h.table 1 (readFunction levels front.source)) fun _ => ?_
    exact h.map (h.readBack front) _

theorem readChunk
    (hfield : ∀ field, R (throw (.headerMismatch field) : m Unit) (throw (.headerMismatch field))) :
    R (readChunk : m Prototype) readChunk :=
  h.bind (h.readHeader hfield headerFields) fun _ => h.bind h.byte fun _ =>
    h.readFunction (nestingLimit + 1) none

end FunctionRelation

end LuaKernel.Chunk
