import Graft.Text.Basic
import Graft.Unicode.Printable

/-!
# `Graft.Text.Quoted` — a text between quote marks

The written form of a text inside a description: between double quotes, with a backslash before quote
marks and backslashes, short escapes for the common controls, and the code point in braces for every
other character that is not visible on its own.
-/

namespace Graft.Text

/-- The lower-case hexadecimal digits of a number. -/
def hexDigits (n : Nat) : Text :=
  Nat.toDigits 16 n

/-- One character as it stands between double quotes. -/
def quotedChar (c : Char) : Text :=
  if c = '"' then ['\\', '"']
  else if c = '\\' then ['\\', '\\']
  else if c = '\n' then ['\\', 'n']
  else if c = '\t' then ['\\', 't']
  else if c = '\r' then ['\\', 'r']
  else if c.toNat = 0 then ['\\', '0']
  else if Unicode.isPrintable c && !Unicode.isGraphemeExtend c then [c]
  else ['\\', 'u', '\x7b'] ++ hexDigits c.toNat ++ ['\x7d']

/-- A text between double quotes. -/
def quoted (t : Text) : Text :=
  '"' :: t.flatMap quotedChar ++ ['"']

end Graft.Text
