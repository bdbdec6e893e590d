import Graft.Span
import Graft.Text.Basic

/-!
# `Graft.Edit` — requests to replace a range

An edit puts a replacement in the place of a range; over an empty range it inserts. Edits are applied
in order of their ranges, and insertions at one position in order of submission.
-/

namespace Graft

/-- A request to put `replacement` in the place of the text between `start` and `stop`. -/
structure Edit where
  start : Nat
  stop : Nat
  replacement : Text
deriving DecidableEq, Repr

namespace Edit

/-- The range that an edit replaces. -/
def span (e : Edit) : Span :=
  ⟨e.start, e.stop⟩

/-- Whether two edits claim the same text: their ranges overlap, or are one range that is not empty.
    Edits that touch do not conflict, and neither do two insertions at one position. -/
def conflictsWith (a b : Edit) : Bool :=
  a.span.overlaps b.span || (a.span = b.span && !a.span.isEmpty)

/-- Whether the first edit may stand before the second. -/
def notAfter (a b : Edit) : Bool :=
  a.start < b.start || (a.start = b.start && a.stop ≤ b.stop)

/-- An edit put into an ordered list, after those that it is level with. -/
def place (e : Edit) : List Edit → List Edit
  | [] => [e]
  | x :: rest => if x.notAfter e then x :: place e rest else e :: x :: rest

/-- Edits in the order of their ranges; those with one range keep their order. -/
def inOrder (edits : List Edit) : List Edit :=
  edits.foldl (fun sorted e => place e sorted) []

end Edit

end Graft
