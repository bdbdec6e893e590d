import Graft.Text.Lines

/-!
# `Graft.Text.LineIndex` — lines and columns by table

The index of a text lists where its lines begin. It answers which line a position lies on, in lines
and columns counted from one, and quotes the lines that a range touches.

## Contents
- `LineIndex.ofText`, `lineOf`, `lineStart?`, `lineCount`: the table and its look-ups.
- `Location` and `LineIndex.locate`: a position as line and column.
- `LineIndex.excerpt`: the quotation shown beside a refused edit.
-/

namespace Graft

/-- A position with the line and the column, in characters, that it lies at; both count from one. -/
structure Location where
  offset : Nat
  line : Nat
  column : Nat
deriving DecidableEq, Repr

/-- The written form of a location, as messages show it. -/
def Location.describe (l : Location) : String :=
  s!"(line {l.line}, col {l.column})"

/-- The starts of the lines of one text, in ascending order. -/
structure LineIndex where
  starts : List Nat
deriving DecidableEq, Repr

namespace LineIndex

/-- The position after every newline of a text that itself begins at position `offset`. -/
def startsAfterNewlines : Text → Nat → List Nat
  | [], _ => []
  | c :: cs, offset =>
      if c = '\n' then (offset + 1) :: startsAfterNewlines cs (offset + 1)
      else startsAfterNewlines cs (offset + c.utf8Size)

/-- The index of a text: its first line begins at its start, each other one after a newline. -/
def ofText (t : Text) : LineIndex :=
  ⟨0 :: startsAfterNewlines t 0⟩

/-- The number of the line that position `p` lies on. Past the end this is the last line. -/
def lineOf (x : LineIndex) (p : Nat) : Nat :=
  (x.starts.takeWhile (· ≤ p)).length

/-- Where the line of the given number begins. No line has number zero. -/
def lineStart? (x : LineIndex) (line : Nat) : Option Nat :=
  if line = 0 then none else x.starts[line - 1]?

/-- How many lines there are. A final newline is followed by one more, empty line. -/
def lineCount (x : LineIndex) : Nat :=
  x.starts.length

/-- The location of a position in the indexed text. Positions past the end are reported at the end;
    the column of a position inside a character counts the bytes of the line before it. -/
def locate (x : LineIndex) (t : Text) (p : Nat) : Location :=
  let p := min p t.size
  let line := x.lineOf p
  let start := (x.lineStart? line).getD 0
  let before := match t.slice? start p with
    | some s => s.length
    | none => p - start
  ⟨p, line, before + 1⟩

/-- A text with spaces put before it up to the given number of characters. -/
def padLeft (width : Nat) (s : Text) : Text :=
  List.replicate (width - s.length) ' ' ++ s

/-- One line of the text under its number, or the mark for a line that begins at the end. -/
def numberedLine (x : LineIndex) (t : Text) (line : Nat) : Text :=
  match x.lineStart? line with
  | some start =>
      if start < t.size then
        padLeft 7 (Text.ofNat line) ++ [':', ' ']
          ++ ((t.from? start).getD []).takeWhile (· ≠ '\n') ++ ['\n']
      else "    eof\n".toList
  | none => "    eof\n".toList

/-- The line on which a range ends: a range that ends where a line begins does not touch it. -/
def lastLine (x : LineIndex) (start stop : Nat) : Nat :=
  let last := x.lineOf stop
  if start < stop ∧ x.lineOf start < last ∧ x.lineStart? last = some stop then last - 1 else last

/-- The quotation of a range: a heading with the lines that it touches, then the first of them and
    the last, with an ellipsis where lines between them are left out. -/
def excerpt (x : LineIndex) (t : Text) (start stop : Nat) : Text :=
  let first := x.lineOf start
  let last := x.lastLine start stop
  if first < last then
    "lines ".toList ++ Text.ofNat first ++ ['-'] ++ Text.ofNat last ++ ['\n']
      ++ x.numberedLine t first
      ++ (if first + 1 < last then "    ...\n".toList else [])
      ++ x.numberedLine t last
  else
    "line ".toList ++ Text.ofNat first ++ ['\n'] ++ x.numberedLine t first

end LineIndex

end Graft
