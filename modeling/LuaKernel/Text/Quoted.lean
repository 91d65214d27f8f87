import LuaKernel.Text.Shapeless
import LuaKernel.Text.Utf8

/-!
# Quoted text

A byte string that is UTF-8 is shown in double quotes, with a backslash before quotes and backslashes,
short escapes for the common controls, and the hexadecimal code of any other character without a plain
shape. Other byte strings are shown by their length alone.
-/

namespace LuaKernel.Text

/-- One character inside quotes. A single quote stands for itself. -/
def escapeChar (c : Char) : List Char :=
  if c = '"' then ['\\', '"']
  else if c = '\\' then ['\\', '\\']
  else if c = '\n' then ['\\', 'n']
  else if c = '\r' then ['\\', 'r']
  else if c = '\t' then ['\\', 't']
  else if c = '\x00' then ['\\', '0']
  else if isShapeless c.toNat then ['\\', 'u', '\x7b'] ++ Nat.toDigits 16 c.toNat ++ ['\x7d']
  else [c]

/-- A byte string as quoted text. -/
def quoted (s : Bytes) : String :=
  if isUtf8 s then String.ofList (['"'] ++ (lossyChars s).flatMap escapeChar ++ ['"'])
  else s!"<binary string len={s.length}>"

end LuaKernel.Text
