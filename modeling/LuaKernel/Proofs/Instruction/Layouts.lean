import Mathlib
import LuaKernel.Instruction.Basic

/-!
# Instruction words and their operands

In each layout the opcode and the operands divide the 32 bits of a word among them. `Tiles start stop fs`:
each of the fields `fs` begins where the one before ends, from bit `start` to bit `stop`. Numbers that fit
such fields are packed into one number and found in it again, and every number is packed from what is found
in it, so the layouts of instructions follow from the fields they have:

* `join_eq_pack`: fields that tile do not overlap, so their bitwise or is their sum.
* `get_pack`, `pack_get`: packing and looking up are inverse, by induction on the fields.
* `tiles_fields`: the opcode and the fields of a layout tile a word.
* `operands_bijection`: in its own layout an opcode and operands in range are a word, and each word with
  an assigned opcode is one of these, once.
-/

namespace LuaKernel

/-! ## Fields of a number -/

namespace Field

/-- What a field of a number holds. -/
def digit (f : Field) (n : ℕ) : ℕ := n / 2 ^ f.offset % 2 ^ f.width

/-- The fields are adjacent, from bit `start` to bit `stop`. -/
def Tiles (start stop : ℕ) : List Field → Prop
  | [] => start = stop
  | f :: fs => f.offset = start ∧ Tiles (start + f.width) stop fs

/-- The sum of numbers, each in the place of its field. -/
def pack (contents : List (Field × ℕ)) : ℕ := (contents.map fun x => x.1.place x.2).sum

/-- The bitwise or of numbers, each in the place of its field. -/
def join : List (Field × ℕ) → ℕ
  | [] => 0
  | x :: contents => x.1.place x.2 ||| join contents

/-- Each number fits its field. -/
def Fitting (contents : List (Field × ℕ)) : Prop := ∀ x ∈ contents, x.2 ≤ x.1.max

theorem get_eq_digit (f : Field) (w : UInt32) : f.get w = f.digit w.toNat := by
  rw [get, digit, Nat.shiftRight_eq_div_pow, Nat.one_shiftLeft]

theorem place_eq (f : Field) (n : ℕ) : f.place n = n * 2 ^ f.offset := Nat.shiftLeft_eq ..

theorem max_eq (f : Field) : f.max = 2 ^ f.width - 1 := by rw [max, Nat.one_shiftLeft]

theorem le_max_iff {f : Field} {n : ℕ} : n ≤ f.max ↔ n < 2 ^ f.width := by
  have := Nat.two_pow_pos f.width
  rw [max_eq]
  omega

theorem get_le_max (f : Field) (w : UInt32) : f.get w ≤ f.max := by
  rw [le_max_iff, get_eq_digit]
  exact Nat.mod_lt _ (Nat.two_pow_pos _)

theorem pack_cons (f : Field) (n : ℕ) (contents : List (Field × ℕ)) :
    pack ((f, n) :: contents) = n * 2 ^ f.offset + pack contents := by
  rw [pack, List.map_cons, List.sum_cons, place_eq, pack]

theorem fitting_nil : Fitting [] := nofun

theorem fitting_cons {f : Field} {n : ℕ} {contents : List (Field × ℕ)} :
    Fitting ((f, n) :: contents) ↔ n ≤ f.max ∧ Fitting contents :=
  List.forall_mem_cons

/-! ## Packing and looking up -/

section
variable {start stop : ℕ} {fs : List Field} {contents : List (Field × ℕ)}

theorem Tiles.le (h : Tiles start stop fs) : start ≤ stop := by
  induction fs generalizing start with
  | nil => exact h.le
  | cons f fs ih => exact (Nat.le_add_right ..).trans (ih h.2)

theorem Tiles.sub_eq {width : ℕ} (h : Tiles (start + width) stop fs) :
    stop - start = width + (stop - (start + width)) := by
  have := h.le
  omega

theorem Tiles.le_offset (h : Tiles start stop fs) {f : Field} (hf : f ∈ fs) : start ≤ f.offset := by
  induction fs generalizing start with
  | nil => cases hf
  | cons g fs ih =>
    rcases List.mem_cons.1 hf with rfl | hf
    · exact h.1.ge
    · exact (Nat.le_add_right ..).trans (ih h.2 hf)

/-- A field looks at no bit below its own. -/
theorem digit_congr {f : Field} (hf : start ≤ f.offset) {m n : ℕ} (h : m / 2 ^ start = n / 2 ^ start) :
    f.digit m = f.digit n := by
  have hpow : 2 ^ f.offset = 2 ^ start * 2 ^ (f.offset - start) := by
    rw [← pow_add, Nat.add_sub_cancel' hf]
  rw [digit, digit, hpow, ← Nat.div_div_eq_div_mul, ← Nat.div_div_eq_div_mul, h]

/-- What is packed lies between the first bit and the last. -/
theorem exists_pack (h : Tiles start stop (contents.map Prod.fst)) (hfit : Fitting contents) :
    ∃ k < 2 ^ (stop - start), pack contents = k * 2 ^ start := by
  induction contents generalizing start with
  | nil => exact ⟨0, Nat.two_pow_pos _, (zero_mul _).symm⟩
  | cons x contents ih =>
    obtain ⟨f, n⟩ := x
    obtain ⟨rfl, htiles⟩ := h
    rw [fitting_cons] at hfit
    obtain ⟨k, hk, hpack⟩ := ih htiles hfit.2
    have hn : n < 2 ^ f.width := le_max_iff.1 hfit.1
    refine ⟨n + k * 2 ^ f.width, ?_, ?_⟩
    · rw [htiles.sub_eq, pow_add]
      nlinarith
    · rw [pack_cons, hpack, pow_add]
      ring

/-- **Fields that tile do not overlap**: what is joined after a field lies above all its bits. -/
theorem join_eq_pack (h : Tiles start stop (contents.map Prod.fst)) (hfit : Fitting contents) :
    join contents = pack contents := by
  induction contents generalizing start with
  | nil => rfl
  | cons x contents ih =>
    obtain ⟨f, n⟩ := x
    obtain ⟨rfl, htiles⟩ := h
    rw [fitting_cons] at hfit
    obtain ⟨k, -, hpack⟩ := exists_pack htiles hfit.2
    have hbelow : f.place n < 2 ^ (f.offset + f.width) := by
      rw [place_eq, pow_add, mul_comm]
      exact Nat.mul_lt_mul_of_pos_left (le_max_iff.1 hfit.1) (Nat.two_pow_pos _)
    have hor := Nat.shiftLeft_add_eq_or_of_lt hbelow k
    rw [Nat.shiftLeft_eq, ← hpack] at hor
    rw [join, ih htiles hfit.2, Nat.or_comm, ← hor, pack_cons, place_eq, Nat.add_comm]

/-- **A packed number is found in its field**: those before it lie below, those after it above. -/
theorem digit_pack (h : Tiles start stop (contents.map Prod.fst)) (hfit : Fitting contents) {f : Field}
    {n : ℕ} (hmem : (f, n) ∈ contents) : f.digit (pack contents) = n := by
  induction contents generalizing start with
  | nil => cases hmem
  | cons x contents ih =>
    obtain ⟨g, m⟩ := x
    obtain ⟨rfl, htiles⟩ := h
    rw [fitting_cons] at hfit
    obtain ⟨k, -, hpack⟩ := exists_pack htiles hfit.2
    have hm : m < 2 ^ g.width := le_max_iff.1 hfit.1
    have hsum : pack ((g, m) :: contents) = (m + k * 2 ^ g.width) * 2 ^ g.offset := by
      rw [pack_cons, hpack, pow_add]
      ring
    rcases List.mem_cons.1 hmem with heq | hmem
    · cases heq
      rw [hsum, digit, Nat.mul_div_cancel _ (Nat.two_pow_pos _), Nat.add_mul_mod_self_right,
        Nat.mod_eq_of_lt hm]
    · rw [← ih htiles hfit.2 hmem]
      refine digit_congr (htiles.le_offset (List.mem_map_of_mem hmem)) ?_
      rw [hsum, hpack, Nat.mul_div_cancel _ (Nat.two_pow_pos _), pow_add, ← Nat.div_div_eq_div_mul,
        Nat.mul_div_cancel _ (Nat.two_pow_pos _), Nat.add_mul_div_right _ _ (Nat.two_pow_pos _),
        Nat.div_eq_of_lt hm, Nat.zero_add]

/-- **A number is packed from what its fields hold**, up to the bits outside them. -/
theorem pack_digit (h : Tiles start stop fs) (n : ℕ) :
    pack (fs.map fun f => (f, f.digit n)) = n / 2 ^ start % 2 ^ (stop - start) * 2 ^ start := by
  induction fs generalizing start with
  | nil =>
    cases h
    rw [Nat.sub_self, pow_zero, Nat.mod_one, zero_mul]
    rfl
  | cons f fs ih =>
    obtain ⟨rfl, htiles⟩ := h
    rw [List.map_cons, pack_cons, ih htiles, htiles.sub_eq, pow_add _ f.width, Nat.mod_mul, pow_add,
      ← Nat.div_div_eq_div_mul, digit]
    ring

end

/-! ## Fields of a word -/

theorem get_pack {contents : List (Field × ℕ)} (h : Tiles 0 32 (contents.map Prod.fst))
    (hfit : Fitting contents) {f : Field} {n : ℕ} (hmem : (f, n) ∈ contents) :
    f.get (UInt32.ofNat (pack contents)) = n := by
  obtain ⟨k, hk, hpack⟩ := exists_pack h hfit
  rw [get_eq_digit, UInt32.toNat_ofNat_of_lt', digit_pack h hfit hmem]
  show _ < 2 ^ 32
  omega

theorem pack_get {fs : List Field} (h : Tiles 0 32 fs) (w : UInt32) :
    UInt32.ofNat (pack (fs.map fun f => (f, f.get w))) = w := by
  have hlt := w.toNat_lt
  simp only [get_eq_digit]
  rw [pack_digit h, pow_zero, Nat.div_one, Nat.mul_one, Nat.mod_eq_of_lt hlt, UInt32.ofNat_toNat]

end Field

/-! ## Operands -/

/-- The fields of a layout beside the opcode. -/
def Layout.fields : Layout → List Field
  | .abc => [.a, .b, .c]
  | .abx => [.a, .bx]
  | .asbx => [.a, .bx]
  | .ax => [.ax]

theorem Layout.tiles_fields (layout : Layout) : Field.Tiles 0 32 (.opcode :: layout.fields) := by
  cases layout with
  | abc => exact ⟨rfl, rfl, rfl, rfl, rfl⟩
  | abx => exact ⟨rfl, rfl, rfl, rfl⟩
  | asbx => exact ⟨rfl, rfl, rfl, rfl⟩
  | ax => exact ⟨rfl, rfl, rfl⟩

namespace Operands

open LuaKernel.Field (fitting_cons fitting_nil)

def layout : Operands → Layout
  | .abc .. => .abc
  | .abx .. => .abx
  | .asbx .. => .asbx
  | .ax .. => .ax

/-- The operands that an instruction can have. There is one signed operand more above zero than below. -/
def InRange : Operands → Prop
  | .abc a b c => a ≤ 255 ∧ b ≤ 511 ∧ c ≤ 511
  | .abx a bx => a ≤ 255 ∧ bx ≤ 262143
  | .asbx a sbx => a ≤ 255 ∧ -131071 ≤ sbx ∧ sbx ≤ 131072
  | .ax n => n ≤ 67108863

instance : DecidablePred InRange
  | .abc .. => inferInstanceAs (Decidable (_ ∧ _ ∧ _))
  | .abx .. => inferInstanceAs (Decidable (_ ∧ _))
  | .asbx .. => inferInstanceAs (Decidable (_ ∧ _ ∧ _))
  | .ax _ => inferInstanceAs (Decidable (_ ≤ _))

/-- The operands as numbers in fields. -/
def contents : Operands → List (Field × ℕ)
  | .abc a b c => [(.a, a), (.b, b), (.c, c)]
  | .abx a bx => [(.a, a), (.bx, bx)]
  | .asbx a sbx => [(.a, a), (.bx, (sbx + signBias).toNat)]
  | .ax n => [(.ax, n)]

theorem map_fst_contents (xs : Operands) : xs.contents.map Prod.fst = xs.layout.fields := by
  cases xs <;> rfl

theorem fitting_contents {xs : Operands} (h : xs.InRange) : Field.Fitting xs.contents := by
  cases xs with
  | abc a b c =>
    exact fitting_cons.2 ⟨h.1, fitting_cons.2 ⟨h.2.1, fitting_cons.2 ⟨h.2.2, fitting_nil⟩⟩⟩
  | abx a bx => exact fitting_cons.2 ⟨h.1, fitting_cons.2 ⟨h.2, fitting_nil⟩⟩
  | asbx a sbx =>
    have hbias : signBias = 131071 := rfl
    have hmax : Field.bx.max = 262143 := rfl
    obtain ⟨ha, hlow, hhigh⟩ := h
    exact fitting_cons.2 ⟨ha, fitting_cons.2 ⟨by omega, fitting_nil⟩⟩
  | ax n => exact fitting_cons.2 ⟨h, fitting_nil⟩

end Operands

namespace Opcode

theorem map_number_all : all.map number = List.range 47 := rfl

theorem ofNumber?_eq_some_iff {n : ℕ} {op : Opcode} : ofNumber? n = some op ↔ n = op.number := by
  constructor
  · intro h
    have hnumber : (all.map number)[n]? = some op.number := by rw [List.getElem?_map]; exact congrArg _ h
    rw [map_number_all] at hnumber
    exact (List.getElem?_eq_some_iff.1 hnumber).2 ▸ (List.getElem_range _).symm
  · intro h
    rw [h]
    exact all_getElem? op

theorem isSome_ofNumber?_iff {n : ℕ} : (ofNumber? n).isSome ↔ n < 47 := by
  rw [ofNumber?, isSome_getElem?]
  rfl

theorem number_lt (op : Opcode) : op.number < 47 :=
  isSome_ofNumber?_iff.1 (Option.isSome_of_eq_some (all_getElem? op))

end Opcode

namespace Instruction

/-! ## Words and operands -/

theorem ofOperands_eq_join (op : Opcode) (xs : Operands) :
    ofOperands op xs = ofNat (Field.join ((.opcode, op.number) :: xs.contents)) := by
  cases xs <;> simp [ofOperands, ofABC, ofABx, ofAsBx, ofAx, Field.join, Operands.contents, Nat.or_assoc]

theorem layout_operandsIn (i : Instruction) (layout : Layout) : (i.operandsIn layout).layout = layout := by
  cases layout <;> rfl

theorem contents_operandsIn (i : Instruction) (layout : Layout) :
    (i.operandsIn layout).contents = layout.fields.map fun f => (f, f.get i.word) := by
  cases layout with
  | abc => rfl
  | abx => rfl
  | asbx =>
    have hsum : (i.sbx + signBias).toNat = i.bx := by
      rw [sbx]
      omega
    rw [operandsIn, Operands.contents, hsum]
    rfl
  | ax => rfl

theorem inRange_operandsIn (i : Instruction) (layout : Layout) : (i.operandsIn layout).InRange := by
  have ha := Field.a.get_le_max i.word
  have hbx : i.bx ≤ 262143 := Field.bx.get_le_max i.word
  have hbias : signBias = 131071 := rfl
  cases layout with
  | abc => exact ⟨ha, Field.b.get_le_max i.word, Field.c.get_le_max i.word⟩
  | abx => exact ⟨ha, hbx⟩
  | asbx =>
    refine ⟨ha, ?_, ?_⟩
    · rw [sbx]
      omega
    · rw [sbx]
      omega
  | ax => exact Field.ax.get_le_max i.word

section
variable {op : Opcode} {xs : Operands}

theorem tiles_contents (op : Opcode) (xs : Operands) :
    Field.Tiles 0 32 (((Field.opcode, op.number) :: xs.contents).map Prod.fst) := by
  rw [List.map_cons, xs.map_fst_contents]
  exact xs.layout.tiles_fields

theorem fitting_contents (op : Opcode) (h : xs.InRange) :
    Field.Fitting ((.opcode, op.number) :: xs.contents) :=
  Field.fitting_cons.2 ⟨op.number_lt.le.trans (by decide), Operands.fitting_contents h⟩

/-- **The bits of operands in range add up**, as they do not meet. -/
theorem ofOperands_eq (op : Opcode) (h : xs.InRange) :
    ofOperands op xs = ofNat (Field.pack ((.opcode, op.number) :: xs.contents)) := by
  rw [ofOperands_eq_join, Field.join_eq_pack (tiles_contents op xs) (fitting_contents op h)]

/-- What an instruction was built from is in its fields. -/
theorem get_ofOperands (h : xs.InRange) {f : Field} {n : ℕ}
    (hmem : (f, n) ∈ (Field.opcode, op.number) :: xs.contents) : f.get (ofOperands op xs).word = n := by
  rw [ofOperands_eq op h]
  exact Field.get_pack (tiles_contents op xs) (fitting_contents op h) hmem

theorem opcode?_ofOperands (h : xs.InRange) : (ofOperands op xs).opcode? = some op :=
  Opcode.ofNumber?_eq_some_iff.2 (get_ofOperands h (.head _))

/-- Its own layout finds in an instruction the operands it was built from. -/
theorem operandsIn_ofOperands (h : xs.InRange) : (ofOperands op xs).operandsIn xs.layout = xs := by
  have hget := fun f n => @get_ofOperands op xs h f n
  cases xs with
  | abc a b c =>
    have ha := hget .a a (.tail _ (.head _))
    have hb := hget .b b (.tail _ (.tail _ (.head _)))
    have hc := hget .c c (.tail _ (.tail _ (.tail _ (.head _))))
    exact congr (congrArg₂ Operands.abc ha hb) hc
  | abx a bx =>
    have ha := hget .a a (.tail _ (.head _))
    have hbx := hget .bx bx (.tail _ (.tail _ (.head _)))
    exact congrArg₂ Operands.abx ha hbx
  | asbx a sbx =>
    have ha := hget .a a (.tail _ (.head _))
    have hbx := hget .bx _ (.tail _ (.tail _ (.head _)))
    have hbias : signBias = 131071 := rfl
    have hlow : -131071 ≤ sbx := h.2.1
    refine congrArg₂ Operands.asbx ha ?_
    rw [Instruction.sbx, Instruction.bx, hbx]
    omega
  | ax n => exact congrArg Operands.ax (hget .ax n (.tail _ (.head _)))

/-- A word is built from its opcode and what any layout finds in it. -/
theorem ofOperands_operandsIn {i : Instruction} (h : i.opcode? = some op) (layout : Layout) :
    ofOperands op (i.operandsIn layout) = i := by
  have hpack := Field.pack_get layout.tiles_fields i.word
  rw [ofOperands_eq op (i.inRange_operandsIn layout), contents_operandsIn, ← Opcode.ofNumber?_eq_some_iff.1 h]
  exact congrArg Instruction.mk hpack

end

theorem operands?_eq_some_iff {i : Instruction} {op : Opcode} (h : i.opcode? = some op) {xs : Operands} :
    i.operands? = some xs ↔ i.operandsIn op.info.layout = xs := by
  rw [operands?, h, Option.map_some, Option.some_inj]

/-- **Words and operands.** An opcode with operands in range of its own layout builds a word that has this
opcode and these operands. A word has operands if and only if its opcode is assigned; they are in range,
and the word is built from them. -/
theorem operands_bijection :
    (∀ (op : Opcode) (xs : Operands), xs.layout = op.info.layout → xs.InRange →
      (ofOperands op xs).opcode? = some op ∧ (ofOperands op xs).operands? = some xs) ∧
    ∀ i : Instruction,
      (i.operands?.isSome ↔ i.opcode?.isSome) ∧ (i.opcode?.isSome ↔ i.opcodeNumber < 47) ∧
      ∀ op, i.opcode? = some op → ∃ xs, i.operands? = some xs ∧
        xs.layout = op.info.layout ∧ xs.InRange ∧ ofOperands op xs = i := by
  constructor
  · intro op xs hlayout hrange
    have hop : (ofOperands op xs).opcode? = some op := opcode?_ofOperands hrange
    refine ⟨hop, (operands?_eq_some_iff hop).2 ?_⟩
    rw [← hlayout, operandsIn_ofOperands hrange]
  · intro i
    refine ⟨?_, Opcode.isSome_ofNumber?_iff, ?_⟩
    · rw [operands?, Option.isSome_map]
    · intro op hop
      exact ⟨i.operandsIn op.info.layout, (operands?_eq_some_iff hop).2 rfl, i.layout_operandsIn _,
        i.inRange_operandsIn _, ofOperands_operandsIn hop _⟩

/-- The farthest jump, read from its word and written again. -/
theorem operands_bijection_jump :
    (Operands.asbx 255 131072).InRange ∧
    (ofOperands .jmp (.asbx 255 131072)).operands? = some (.asbx 255 131072) ∧
    (ofNat 4294967262).opcode? = some .jmp ∧
    ∃ xs, (ofNat 4294967262).operands? = some xs ∧ ofOperands .jmp xs = ofNat 4294967262 := by
  have hrange : (Operands.asbx 255 131072).InRange := by decide
  have hop : (ofNat 4294967262).opcode? = some .jmp := rfl
  obtain ⟨xs, hxs, -, -, hword⟩ := (operands_bijection.2 (ofNat 4294967262)).2.2 .jmp hop
  exact ⟨hrange, (operands_bijection.1 .jmp _ rfl hrange).2, hop, xs, hxs, hword⟩

end Instruction

end LuaKernel
