/-!
# `Graft.Span` — half-open ranges of positions

A span runs from `start` up to, and not including, `stop`. Spans come from outside as well and may be
inverted: such a span is empty, although its ends still take part in comparisons.
-/

namespace Graft

/-- The range from `start` to before `stop`. -/
structure Span where
  start : Nat
  stop : Nat
deriving DecidableEq, Repr

namespace Span

/-- The span of an element that has none: empty, at the start of the text. -/
def zero : Span := ⟨0, 0⟩

/-- How many positions the span holds. An inverted span holds none. -/
def length (s : Span) : Nat :=
  s.stop - s.start

/-- Whether the span holds no position. -/
def isEmpty (s : Span) : Bool :=
  s.length = 0

/-- Whether two spans share a point strictly inside both. Spans that only touch do not. -/
def overlaps (a b : Span) : Bool :=
  b.start < a.stop && a.start < b.stop

/-- Whether the second span lies within the first. -/
def contains (a b : Span) : Bool :=
  a.start ≤ b.start && b.stop ≤ a.stop

/-- Order by start, and by stop where the starts agree. -/
def order (a b : Span) : Ordering :=
  (compare a.start b.start).then (compare a.stop b.stop)

/-- The written form with field names. -/
def inspect (s : Span) : String :=
  "Span \x7b start: " ++ toString s.start ++ ", end: " ++ toString s.stop ++ " \x7d"

/-- The written form as a bare range. -/
def inspectRange (s : Span) : String :=
  toString s.start ++ ".." ++ toString s.stop

end Span

end Graft
