import Graft.Text.Basic

/-!
# `Graft.Text.Lines` — where lines begin and end

A line ends with its newline. All functions scan the text itself; positions past the end count as the
end, and a position inside a character counts as lying between that character and the next one where
the search goes forward.

## Contents
- `startOfLine`, `lineEnd`, `nextLineStart`, `nextLineStartOrHere`: the line around a position.
- `indentationAt`: the run of spaces and tabs at a position.
- `containsBlankLine`: whether a range holds a complete line of white space.
-/

namespace Graft.Text

/-- The position after the first newline at or after `p`, or the end of the text. -/
def nextLineStart : Text → Nat → Nat
  | [], _ => 0
  | c :: cs, p =>
      if p = 0 ∧ c = '\n' then 1 else c.utf8Size + nextLineStart cs (p - c.utf8Size)

/-- The position of the first newline at or after `p`, or the end of the text. -/
def lineEnd : Text → Nat → Nat
  | [], _ => 0
  | c :: cs, p =>
      if p = 0 ∧ c = '\n' then 0 else c.utf8Size + lineEnd cs (p - c.utf8Size)

/-- The position after the last newline before `p`, or the start of the text. -/
def startOfLine : Text → Nat → Nat
  | [], _ => 0
  | c :: cs, p =>
      if c.utf8Size ≤ p then
        let rest := startOfLine cs (p - c.utf8Size)
        if rest = 0 then (if c = '\n' then 1 else 0) else c.utf8Size + rest
      else 0

/-- Whether the character that ends at position `p` is a newline. -/
def followsNewline : Text → Nat → Bool
  | [], _ => false
  | c :: cs, p =>
      if c.utf8Size ≤ p then (c = '\n' && p = 1) || followsNewline cs (p - c.utf8Size) else false

/-- Whether a line begins at position `p`. -/
def isLineStart (t : Text) (p : Nat) : Bool :=
  p = 0 || t.followsNewline p

/-- Position `p` itself where a line begins there, and otherwise the start of the next line. -/
def nextLineStartOrHere (t : Text) (p : Nat) : Nat :=
  if t.isLineStart p then p else t.nextLineStart p

/-- Whether a character indents: a space or a tab. -/
def isIndent (c : Char) : Bool :=
  c = ' ' || c = '\t'

/-- The run of spaces and tabs from the nearest cut at or before `p` on. -/
def indentationAt (t : Text) (p : Nat) : Text :=
  (t.fromFloor p).takeWhile isIndent

/-- Whether a range of the text holds a complete line of white space: a newline, nothing that is not
    white space, and another newline. What stands before the first newline of the range and after its
    last does not count. -/
def containsBlankLine (t : Text) (start stop : Nat) : Bool :=
  match t.slice? start (min stop t.size) with
  | none => false
  | some region => (region.pieces.drop 1).dropLast.any isBlank

end Graft.Text
