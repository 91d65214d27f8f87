import LuaKernel.Bytes.Basic

/-!
# UTF-8 view of a byte string

`Text.scalars` reads a byte string as UTF-8: one entry per character, and one empty entry for each
ill-formed part. A part is as long as it could still have become a character: the bytes up to the first
one that cannot go on. The reader is a small automaton over the bytes, so it is total on any input.
-/

namespace LuaKernel.Text

/-- A character whose first bytes have been read: how many are to come, the range of the next one, and
the code so far. -/
structure Unfinished where
  more : Nat
  low : UInt8
  high : UInt8
  code : Nat

/-- What a first byte starts: a whole character, an unfinished one, or nothing. -/
inductive Lead where
  | whole (c : Char)
  | more (p : Unfinished)
  | illFormed

/-- The lead of a byte. The range of the second byte is narrower where the full one would admit a code
that a shorter form has, a surrogate, or a code beyond the last one. -/
def lead (b : UInt8) : Lead :=
  if b < 0x80 then .whole (Char.ofNat b.toNat)
  else if b < 0xc2 then .illFormed
  else if b < 0xe0 then .more ⟨1, 0x80, 0xbf, b.toNat - 0xc0⟩
  else if b < 0xf0 then
    .more ⟨2, if b = 0xe0 then 0xa0 else 0x80, if b = 0xed then 0x9f else 0xbf, b.toNat - 0xe0⟩
  else if b < 0xf5 then
    .more ⟨3, if b = 0xf0 then 0x90 else 0x80, if b = 0xf4 then 0x8f else 0xbf, b.toNat - 0xf0⟩
  else .illFormed

/-- What one byte emits and leaves open where no character is open. -/
def begin (b : UInt8) : List (Option Char) × Option Unfinished :=
  match lead b with
  | .whole c => ([some c], none)
  | .more p => ([], some p)
  | .illFormed => ([none], none)

/-- What one byte emits and leaves open. A byte that cannot continue the open character ends it as an
ill-formed part and is read again as a first byte. -/
def step : Option Unfinished → UInt8 → List (Option Char) × Option Unfinished
  | none, b => begin b
  | some p, b =>
    if p.low ≤ b ∧ b ≤ p.high then
      let code := p.code * 64 + (b.toNat - 0x80)
      if p.more = 1 then ([some (Char.ofNat code)], none)
      else ([], some ⟨p.more - 1, 0x80, 0xbf, code⟩)
    else
      let (out, rest) := begin b
      (none :: out, rest)

/-- The entries of the remaining bytes. A character left open at the end is an ill-formed part. -/
def scan : Option Unfinished → Bytes → List (Option Char)
  | none, [] => []
  | some _, [] => [none]
  | p, b :: s => (step p b).1 ++ scan (step p b).2 s

/-- The characters of a byte string, `none` for each ill-formed part. -/
def scalars (s : Bytes) : List (Option Char) := scan none s

/-- Every byte belongs to a character. -/
def isUtf8 (s : Bytes) : Bool := (scalars s).all Option.isSome

/-- The characters, with U+FFFD for each ill-formed part. -/
def lossyChars (s : Bytes) : List Char := (scalars s).map fun c => c.getD '\ufffd'

/-- The text of a byte string, with U+FFFD for each ill-formed part. -/
def lossy (s : Bytes) : String := String.ofList (lossyChars s)

end LuaKernel.Text
