import Graft.Span
import Graft.Text.Quoted

/-!
# `Graft.Extent` — where an element lies in its text

An element has two ranges: its *content*, and a *span* around it that also covers what was skipped on
the way there. The four positions must be in order, within the text, and at places where the text can
be cut. An extent either satisfies all of this or is *invalid*: an invalid extent still exists, reports
zero for every position, and has neither content nor covered text.

## Contents
- `RangeError`: why four positions make no extent.
- `Bounds.check`: the test, naming the first thing that is wrong.
- `Extent` and its readings `start`, `stop`, `span`, `content?`, `covered?`.
-/

namespace Graft

/-- Why four positions cannot bound an element of a text. -/
inductive RangeError
  /-- The content ends before it starts. -/
  | inverted (start stop : Nat)
  /-- The position lies past the end of a text of `size` bytes. -/
  | outOfBounds (offset size : Nat)
  /-- The span does not cover the content. -/
  | spanMismatch (start stop : Nat) (span : Span)
  /-- The position lies inside a character. -/
  | splitsCharacter (offset : Nat)
deriving DecidableEq, Repr

namespace RangeError

/-- What is wrong, in words. -/
def message : RangeError → String
  | inverted start stop => s!"range {start}..{stop} is inverted"
  | outOfBounds offset size => s!"offset {offset} lies past the end of the text ({size} bytes)"
  | spanMismatch start stop span =>
      s!"span {span.start}..{span.stop} does not cover content range {start}..{stop}"
  | splitsCharacter offset => s!"offset {offset} is not on a character boundary"

/-- The stable name of the kind of error. -/
def code : RangeError → String
  | inverted .. => "element::inverted_range"
  | outOfBounds .. => "element::out_of_bounds"
  | spanMismatch .. => "element::span_mismatch"
  | splitsCharacter .. => "element::char_boundary"

end RangeError

/-- The content range of an element and the span around it. -/
structure Bounds where
  start : Nat
  stop : Nat
  span : Span
deriving DecidableEq, Repr

namespace Bounds

/-- The positions of some bounds, in the order in which they are examined. -/
def positions (b : Bounds) : List Nat :=
  [b.span.start, b.start, b.stop, b.span.stop]

/-- Bounds from four positions, or the first rule that they break. -/
def check (t : Text) (start stop : Nat) (span : Span) : Except RangeError Bounds :=
  if start > stop then .error (.inverted start stop)
  else if span.stop > t.size ∨ stop > t.size then
    .error (.outOfBounds (max span.stop stop) t.size)
  else if span.start > start ∨ span.stop < stop then .error (.spanMismatch start stop span)
  else
    let b : Bounds := ⟨start, stop, span⟩
    match b.positions.find? (fun p => !t.isBoundary p) with
    | some p => .error (.splitsCharacter p)
    | none => .ok b

end Bounds

/-- Where an element lies, or nothing if it is invalid. -/
structure Extent where
  bounds? : Option Bounds
deriving DecidableEq, Repr

namespace Extent

/-- The extent of an element that has no place in the text. -/
def invalid : Extent := ⟨none⟩

/-- Whether the element has a place in the text. -/
def isValid (e : Extent) : Bool :=
  e.bounds?.isSome

/-- Where the content starts. Zero for an invalid extent. -/
def start (e : Extent) : Nat :=
  (e.bounds?.map Bounds.start).getD 0

/-- Where the content ends. Zero for an invalid extent. -/
def stop (e : Extent) : Nat :=
  (e.bounds?.map Bounds.stop).getD 0

/-- Everything that the element took up. Empty at zero for an invalid extent. -/
def span (e : Extent) : Span :=
  (e.bounds?.map Bounds.span).getD Span.zero

/-- The text of the content. -/
def content? (t : Text) (e : Extent) : Option Text :=
  e.bounds?.bind fun b => t.slice? b.start b.stop

/-- The text of the span. -/
def covered? (t : Text) (e : Extent) : Option Text :=
  e.bounds?.bind fun b => t.slice? b.span.start b.span.stop

/-- A quoted text, or the word for its absence. -/
def inspectText : Option Text → String
  | none => "None"
  | some s => "Some(" ++ String.ofList s.quoted ++ ")"

/-- The written form of an extent together with its content. -/
def inspect (t : Text) (e : Extent) : String :=
  match e.bounds? with
  | none => "BasicElement(invalid)"
  | some b =>
      "BasicElement \x7b start: " ++ toString b.start ++ ", end: " ++ toString b.stop
        ++ ", span: " ++ b.span.inspectRange ++ ", content: " ++ inspectText (e.content? t)
        ++ " \x7d"

end Extent

end Graft
