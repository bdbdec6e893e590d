import Graft.Regex.CharSet

/-!
# `Graft.Regex.Basic` — regular expressions

A regular expression matches characters from sets, tests its surroundings, groups, chooses and
repeats. Choices are ordered: a match prefers the first alternative, and a repetition either as many
rounds as possible or, where it is not greedy, as few.
-/

namespace Graft

namespace Regex

/-- What the word characters on both sides of a position may be asked for. -/
inductive WordEdge
  /-- Exactly one side belongs to a word. -/
  | boundary
  /-- Both sides belong to a word, or neither does. -/
  | inside
  /-- A word starts here. -/
  | start
  /-- A word ends here. -/
  | stop
  /-- The side before does not belong to a word. -/
  | startHalf
  /-- The side after does not belong to a word. -/
  | stopHalf
deriving DecidableEq, Repr

/-- A test of the characters around a position. -/
inductive Look
  | textStart
  | textStop
  /-- A line starts here; lines end with a newline. -/
  | lineStart
  | lineStop
  /-- A line starts here; lines end with a newline, a return, or both. -/
  | returnLineStart
  | returnLineStop
  /-- A test of word characters, of all scripts or of ASCII alone. -/
  | word (edge : WordEdge) (ascii : Bool)
deriving DecidableEq, Repr

/-- Whether a character that may be missing belongs to a word. -/
def inWord (ascii : Bool) (c : Option Char) : Bool :=
  c.any (if ascii then CharSet.asciiWord.contains else Unicode.isWordChar)

/-- Whether a test of words holds between two sides. -/
def WordEdge.holds (before after : Bool) : WordEdge → Bool
  | boundary => before != after
  | inside => before == after
  | start => !before && after
  | stop => before && !after
  | startHalf => !before
  | stopHalf => !after

/-- Whether a test holds between two characters, either of which may be missing. -/
def Look.holds (before after : Option Char) : Look → Bool
  | textStart => before.isNone
  | textStop => after.isNone
  | lineStart => before.isNone || before = some '\n'
  | lineStop => after.isNone || after = some '\n'
  | returnLineStart =>
      before.isNone || before = some '\n' || (before = some '\r' && after != some '\n')
  | returnLineStop =>
      after.isNone || after = some '\r' || (after = some '\n' && before != some '\r')
  | word edge ascii => edge.holds (inWord ascii before) (inWord ascii after)

end Regex

/-- A regular expression. -/
inductive Regex
  /-- Matches without consuming anything. -/
  | empty
  /-- Matches one character of a set. -/
  | set (s : Regex.CharSet)
  /-- Matches where a test holds. -/
  | look (l : Regex.Look)
  /-- Remembers what a part matched. -/
  | capture (index : Nat) (r : Regex)
  | seq (a b : Regex)
  /-- The first part, or else the second. -/
  | alt (a b : Regex)
  /-- From `least` to `most` rounds, without an upper bound where there is no `most`. -/
  | rep (greedy : Bool) (least : Nat) (most : Option Nat) (r : Regex)
deriving DecidableEq, Repr

namespace Regex

/-- One expression after the other. -/
def seqs : List Regex → Regex
  | [] => empty
  | [r] => r
  | r :: rest => seq r (seqs rest)

/-- The first of some expressions that matches. -/
def alts : List Regex → Regex
  | [] => empty
  | [r] => r
  | r :: rest => alt r (alts rest)

/-- As many rounds as possible, perhaps none. -/
def star (r : Regex) : Regex :=
  rep true 0 none r

/-- As many rounds as possible, at least one. -/
def plus (r : Regex) : Regex :=
  rep true 1 none r

/-- The expression, if possible. -/
def opt (r : Regex) : Regex :=
  rep true 0 (some 1) r

/-- Whether an expression never consumes anything. -/
def isZeroWidth : Regex → Bool
  | empty | look _ => true
  | set _ => false
  | capture _ r => r.isZeroWidth
  | seq a b | alt a b => a.isZeroWidth && b.isZeroWidth
  | rep _ _ most r => most = some 0 || r.isZeroWidth

/-- A repetition. Rounds that consume nothing need no more than one. -/
def repeated (greedy : Bool) (least : Nat) (most : Option Nat) (r : Regex) : Regex :=
  let (least, most) :=
    if r.isZeroWidth then (min least 1, some ((most.map (min 1)).getD 1)) else (least, most)
  if most = some 0 then empty
  else if least = 1 ∧ most = some 1 then r
  else rep greedy least most r

end Regex

end Graft
