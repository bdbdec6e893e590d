import Graft.Unicode.CaseFolding
import Graft.Unicode.WhiteSpace
import Graft.Unicode.WordChar

/-!
# `Graft.Regex.CharSet` — sets of characters

What a single position of a pattern may match, as an expression over ranges and Unicode properties.
Membership is decided by recursion on the expression, so no set is ever listed out.
-/

namespace Graft.Regex

/-- The properties of characters that have a table. -/
inductive Property
  | whiteSpace
  | decimalDigit
  | otherNumber
  | alphabetic
  | mark
  | connector
  | joinControl
  | wordChar
deriving DecidableEq, Repr

/-- Whether a character has a property. -/
def Property.holds : Property → Char → Bool
  | whiteSpace => Unicode.isWhiteSpace
  | decimalDigit => Unicode.isDecimalDigit
  | otherNumber => Unicode.isOtherNumber
  | alphabetic => Unicode.isAlphabetic
  | mark => Unicode.isMark
  | connector => fun c => Unicode.connector.contains c.toNat
  | joinControl => fun c => Unicode.joinControl.contains c.toNat
  | wordChar => Unicode.isWordChar

/-- A set of characters. -/
inductive CharSet
  /-- No character. -/
  | empty
  /-- The characters from `lo` to `hi`, both included. -/
  | range (lo hi : Char)
  /-- The characters with a property. -/
  | property (p : Property)
  | union (a b : CharSet)
  | inter (a b : CharSet)
  | diff (a b : CharSet)
  | symmDiff (a b : CharSet)
  | compl (a : CharSet)
  /-- The characters that agree with a member up to case: up to that of ASCII letters alone, or up to
      that of all letters. -/
  | folded (ascii : Bool) (a : CharSet)
deriving DecidableEq, Repr

/-- The characters that agree with one up to the case of ASCII letters, itself included. -/
def asciiVariants (c : Char) : List Char :=
  if c.isUpper then [c, c.toLower] else if c.isLower then [c, c.toUpper] else [c]

/-- The characters that agree with one up to case, itself included. -/
def variants (ascii : Bool) (c : Char) : List Char :=
  if ascii then asciiVariants c else Unicode.caseVariants c

namespace CharSet

/-- Whether a character is a member. -/
def contains : CharSet → Char → Bool
  | empty, _ => false
  | range lo hi, c => lo ≤ c && c ≤ hi
  | property p, c => p.holds c
  | union a b, c => a.contains c || b.contains c
  | inter a b, c => a.contains c && b.contains c
  | diff a b, c => a.contains c && !b.contains c
  | symmDiff a b, c => a.contains c != b.contains c
  | compl a, c => !a.contains c
  | folded ascii a, c => (variants ascii c).any a.contains

/-- The set of one character. -/
def char (c : Char) : CharSet :=
  range c c

/-- The union of some sets. -/
def unions : List CharSet → CharSet
  | [] => empty
  | [a] => a
  | a :: rest => union a (unions rest)

/-- The union of some ranges. -/
def ranges (rs : List (Char × Char)) : CharSet :=
  unions (rs.map fun r => range r.1 r.2)

/-- Every character but newline. -/
def notNewline : CharSet :=
  compl (char '\n')

/-- The digits, letters and the underscore of ASCII. -/
def asciiWord : CharSet :=
  ranges [('0', '9'), ('A', 'Z'), ('_', '_'), ('a', 'z')]

/-- The white space of ASCII. -/
def asciiSpace : CharSet :=
  ranges [('\t', '\r'), (' ', ' ')]

/-- The sets of ASCII characters that have a name between colons. -/
def named? (name : List Char) : Option CharSet :=
  match String.ofList name with
  | "alnum" => some (ranges [('0', '9'), ('A', 'Z'), ('a', 'z')])
  | "alpha" => some (ranges [('A', 'Z'), ('a', 'z')])
  | "ascii" => some (ranges [('\x00', '\x7f')])
  | "blank" => some (ranges [('\t', '\t'), (' ', ' ')])
  | "cntrl" => some (ranges [('\x00', '\x1f'), ('\x7f', '\x7f')])
  | "digit" => some (ranges [('0', '9')])
  | "graph" => some (ranges [('!', '~')])
  | "lower" => some (ranges [('a', 'z')])
  | "print" => some (ranges [(' ', '~')])
  | "punct" => some (ranges [('!', '/'), (':', '@'), ('[', '\x60'), ('\x7b', '~')])
  | "space" => some asciiSpace
  | "upper" => some (ranges [('A', 'Z')])
  | "word" => some asciiWord
  | "xdigit" => some (ranges [('0', '9'), ('A', 'F'), ('a', 'f')])
  | _ => none

end CharSet

end Graft.Regex
