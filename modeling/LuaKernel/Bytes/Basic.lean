/-!
# Byte strings

A string of the machine is a list of bytes with no encoding attached. This module has the views the
other modules read it through: ASCII text, blanks at the ends, the bytewise order, and little-endian
words of a fixed width (`leBytes`, read back by `ofLeBytes`).
-/

namespace LuaKernel

/-- A byte string. -/
abbrev Bytes := List UInt8

namespace Bytes

/-- The bytes of an ASCII text. -/
def ascii (s : String) : Bytes := s.toList.map Char.toUInt8

/-- Strings of at most this many bytes are short. -/
def shortLimit : Nat := 40

/-- A short string has its own constant tag in a chunk. -/
def isShort (s : Bytes) : Bool := s.length ≤ shortLimit

/-! ## Blanks -/

/-- Space, tab, line feed, form feed and carriage return; the vertical tab is no blank. -/
def isBlank (b : UInt8) : Bool :=
  b == 0x20 || b == 0x09 || b == 0x0a || b == 0x0c || b == 0x0d

/-- The string without the blanks at its two ends. -/
def trim (s : Bytes) : Bytes :=
  ((s.dropWhile isBlank).reverse.dropWhile isBlank).reverse

/-! ## Order -/

/-- Bytewise lexicographic order; a proper prefix comes first. -/
def cmp : Bytes → Bytes → Ordering
  | [], [] => .eq
  | [], _ :: _ => .lt
  | _ :: _, [] => .gt
  | a :: s, b :: t => if a < b then .lt else if b < a then .gt else cmp s t

/-! ## Little-endian words -/

/-- The `width` low bytes of `n`, least significant first. -/
def leBytes : (width : Nat) → (n : Nat) → Bytes
  | 0, _ => []
  | w + 1, n => UInt8.ofNat n :: leBytes w (n / 256)

/-- The number whose bytes are `s`, least significant first. -/
def ofLeBytes : Bytes → Nat
  | [] => 0
  | b :: s => b.toNat + 256 * ofLeBytes s

@[simp] theorem length_leBytes (w n : Nat) : (leBytes w n).length = w := by
  induction w generalizing n with
  | zero => rfl
  | succ w ih => simp [leBytes, ih]

theorem leBytes_ofLeBytes (s : Bytes) : leBytes s.length (ofLeBytes s) = s := by
  induction s with
  | nil => rfl
  | cons b s ih =>
    have hb := b.toNat_lt
    have hd : (b.toNat + 256 * ofLeBytes s) / 256 = ofLeBytes s := by omega
    simp only [List.length_cons, ofLeBytes, leBytes, hd, ih, List.cons.injEq, and_true]
    apply UInt8.toNat_inj.1
    simp only [UInt8.toNat_ofNat']
    omega

theorem ofLeBytes_lt (s : Bytes) : ofLeBytes s < Nat.pow 256 s.length := by
  induction s with
  | nil => exact Nat.zero_lt_one
  | cons b s ih =>
    have hb := b.toNat_lt
    have hp : Nat.pow 256 (s.length + 1) = Nat.pow 256 s.length * 256 := rfl
    simp only [ofLeBytes, List.length_cons]
    omega

/-- A number that fits in the width is read back. -/
theorem ofLeBytes_leBytes {w n : Nat} (h : n < Nat.pow 256 w) : ofLeBytes (leBytes w n) = n := by
  induction w generalizing n with
  | zero =>
    have : n = 0 := Nat.lt_one_iff.1 h
    subst this
    rfl
  | succ w ih =>
    have hp : Nat.pow 256 (w + 1) = Nat.pow 256 w * 256 := rfl
    have hd : n / 256 < Nat.pow 256 w := by omega
    simp only [leBytes, ofLeBytes, ih hd, UInt8.toNat_ofNat']
    omega

end Bytes

end LuaKernel
