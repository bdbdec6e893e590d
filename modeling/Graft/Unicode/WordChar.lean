import Graft.Unicode.Alphabetic
import Graft.Unicode.Mark
import Graft.Unicode.Number

/-!
# `Graft.Unicode.WordChar` — the characters that words are made of

A word character is alphabetic, a mark, a decimal digit, a connector such as `_`, or one of the two
join controls.
-/

namespace Graft.Unicode

/-- The code points of general category Pc. -/
def connector : RangeTable where
  ranges :=
    [(0x5F, 0x5F), (0x203F, 0x2040), (0x2054, 0x2054), (0xFE33, 0xFE34), (0xFE4D, 0xFE4F),
     (0xFF3F, 0xFF3F)]
  ascending := by decide +kernel

/-- The code points with property Join_Control. -/
def joinControl : RangeTable where
  ranges :=
    [(0x200C, 0x200D)]
  ascending := by decide +kernel

/-- Whether a character may continue a word. -/
def isWordChar (c : Char) : Bool :=
  isAlphabetic c || isMark c || isDecimalDigit c || connector.contains c.toNat
    || joinControl.contains c.toNat

/-- Whether a character is a letter or a number of any kind. -/
def isAlphanumeric (c : Char) : Bool :=
  isAlphabetic c || isDecimalDigit c || isOtherNumber c

end Graft.Unicode
